import ZMachine.Interpreter.Saving
import ZMachine.Proofs.Machine.Safety
import ZMachine.Proofs.Snapshot.Basic

/-!
# What belongs to the session

Filling in the header and keeping the session's bits of flags 2 touches six bytes of the header
(`sessionAddresses`). Taking over a snapshot gives the machine the snapshot's frames and program
counter, and its memory but for those bytes.
-/

namespace ZMachine

namespace Memory

/-- Two memories of one size with the same bytes but for those at some addresses. -/
structure AgreeBut (addresses : List Nat) (a b : Memory) : Prop where
  size_eq : a.size = b.size
  byte_eq : ∀ i, i ∉ addresses → a.byte i = b.byte i

namespace AgreeBut

variable {addresses : List Nat} {a b c : Memory}

theorem trans (h : AgreeBut addresses a b) (h' : AgreeBut addresses b c) :
    AgreeBut addresses a c :=
  ⟨h.size_eq.trans h'.size_eq, fun i hi => (h.byte_eq i hi).trans (h'.byte_eq i hi)⟩

theorem put {address : Nat} (mem : address ∈ addresses) (value : UInt8) :
    AgreeBut addresses (a.put address value) a := by
  refine ⟨size_put _ _ _, fun i hi => ?_⟩
  rw [byte_put, if_neg]
  rintro ⟨rfl, -⟩
  exact hi mem

theorem put_both (h : AgreeBut addresses a b) (address : Nat) (value : UInt8) :
    AgreeBut addresses (a.put address value) (b.put address value) := by
  refine ⟨by rw [size_put, size_put, h.size_eq], fun i hi => ?_⟩
  rw [byte_put, byte_put, h.size_eq]
  split
  · rfl
  · exact h.byte_eq i hi

end AgreeBut

theorem put_byte (memory : Memory) (address : Nat) :
    memory.put address (memory.byte address) = memory := by
  refine ext (size_put _ _ _) fun i => ?_
  rw [byte_put]
  split
  · next h => rw [h.1]
  · rfl

end Memory

namespace Machine

variable {story : Story} {m : Machine}

/-- The bytes of the header that belong to the session or to the interpreter: the flags of the
screen, the lower byte of flags 2, the number and version of the interpreter, and the revision of
the standard. -/
def sessionAddresses : List Nat := [0x01, 0x11, 0x1E, 0x1F, 0x32, 0x33]

private theorem or_session_div (a b : Nat) (bound : a < 0x10000) :
    (a &&& 0xFFFC ||| b &&& 3) / 256 = a / 256 := by
  have high : a >>> 8 < 2 ^ 8 := by
    rw [Nat.shiftRight_eq_div_pow]
    omega
  have shifted : (a &&& 0xFFFC ||| b &&& 3) >>> 8 = a >>> 8 := by
    rw [Nat.shiftRight_or_distrib, Nat.shiftRight_and_distrib, Nat.shiftRight_and_distrib]
    show (a >>> 8 &&& 2 ^ 8 - 1) ||| (b >>> 8 &&& 0) = a >>> 8
    rw [Nat.and_zero, Nat.or_zero, Nat.and_two_pow_sub_one_of_lt_two_pow high]
  rwa [Nat.shiftRight_eq_div_pow, Nat.shiftRight_eq_div_pow] at shifted

/-- The session's bits are in the lower byte of flags 2. -/
theorem high_sessionBits (f g : UInt16) :
    Word.high (f &&& 0xFFFC ||| sessionBits g) = Word.high f := by
  apply congrArg UInt8.ofNat
  rw [sessionBits, UInt16.toNat_or, UInt16.toNat_and, UInt16.toNat_and]
  exact or_session_div f.toNat g.toNat f.toNat_lt

theorem setFlags2_eq {w : UInt16} (room : Header.length ≤ m.memory.size) :
    setFlags2 w m = .ok () ((m.withByte 0x10 (Word.high w)).withByte 0x11 (Word.low w)) := by
  have size : (m.withByte 0x10 (Word.high w)).memory.size = m.memory.size := Memory.size_put _ _ _
  simp only [Header.length] at room
  rw [setFlags2, Header.flags2Address, bind_of_ok (poke_of_lt (by omega))]
  exact poke_of_lt (by rw [size]; omega)

theorem low_sessionBits (f g : UInt16) :
    Word.low (f &&& 0xFFFC ||| sessionBits g) = Word.low f &&& 0xFC ||| Word.low g &&& 3 := by
  apply UInt8.toNat_inj.mp
  simp only [Word.low, sessionBits, UInt8.toNat_or, UInt8.toNat_and, UInt8.toNat_ofNat',
    UInt16.toNat_or, UInt16.toNat_and]
  rw [Nat.or_mod_two_pow, Nat.and_mod_two_pow, Nat.and_mod_two_pow]
  rfl

/-- A saved memory with the session's bits of a live one. -/
def withSessionBits (live saved : Memory) : Memory :=
  saved.put (Header.flags2Address + 1)
    (saved.byte (Header.flags2Address + 1) &&& 0xFC ||| live.byte (Header.flags2Address + 1) &&& 3)

/-- Keeping the session's bits leaves what has overwritten memory alone but for the lower byte of
flags 2. -/
theorem keepingSessionBits_eq {overwrite : MachineM Unit} {t : Machine}
    (run : overwrite m = .ok () t) (room : Header.length ≤ t.memory.size) :
    keepingSessionBits overwrite m =
      .ok () { t with memory := withSessionBits m.memory t.memory } := by
  have high : Word.high t.flags2 = t.memory.byte 0x10 := by
    rw [flags2, Memory.word, Word.high_ofBytes, Header.flags2Address]
  refine (bind_of_ok run).trans ((setFlags2_eq room).trans ?_)
  simp only [withByte, high_sessionBits, high, Memory.put_byte, low_sessionBits]
  simp only [flags2, Memory.word, Word.low_ofBytes, withSessionBits, Header.flags2Address]

/-- Memory with a header filled in for a host that can split the screen or not. -/
def preparedMemory (memory : Memory) (canSplit : Bool) : Memory :=
  ((((memory.put Header.flags1Address
    (Interpreter.sessionFlags1 (memory.byte Header.flags1Address) canSplit)).put
      Header.interpreterNumberAddress Interpreter.interpreterNumber).put
        Header.interpreterVersionAddress Interpreter.interpreterVersion).put
          Header.standardRevisionAddress 1).put (Header.standardRevisionAddress + 1) 1

theorem agreeBut_preparedMemory (memory : Memory) (canSplit : Bool) :
    Memory.AgreeBut sessionAddresses (preparedMemory memory canSplit) memory := by
  refine (Memory.AgreeBut.put (by decide) _).trans ?_
  refine (Memory.AgreeBut.put (by decide) _).trans ?_
  refine (Memory.AgreeBut.put (by decide) _).trans ?_
  refine (Memory.AgreeBut.put (by decide) _).trans ?_
  exact Memory.AgreeBut.put (by decide) _

/-- A saved memory as it is taken over by a session: with the session's bits, and with its header
filled in. -/
def sessionMemory (canSplit : Bool) (live saved : Memory) : Memory :=
  preparedMemory (withSessionBits live saved) canSplit

theorem agreeBut_sessionMemory (canSplit : Bool) (live saved : Memory) :
    Memory.AgreeBut sessionAddresses (sessionMemory canSplit live saved) saved :=
  (agreeBut_preparedMemory _ canSplit).trans (Memory.AgreeBut.put (by decide) _)

end Machine

namespace Interpreter

variable {H : Type} {story : Story} {s : Interpreter H} {snapshot : Snapshot}

theorem prepareHeader_eq [Host H] (room : Header.length ≤ s.machine.memory.size) :
    prepareHeader s = .ok ()
      { s with
        machine :=
          { s.machine with
            memory := Machine.preparedMemory s.machine.memory (Host.supportsSplit s.host) } } := by
  have poked : ∀ (memory : Memory) (address : Nat) (value : UInt8), address < Header.length →
      Header.length ≤ memory.size →
        Machine.poke address value { s.machine with memory } =
          .ok () { s.machine with memory := memory.put address value } ∧
            Header.length ≤ (memory.put address value).size := by
    intro memory address value inside room
    refine ⟨Machine.poke_of_lt (Nat.lt_of_lt_of_le inside room), ?_⟩
    rw [Memory.size_put]
    exact room
  obtain ⟨run₁, room₁⟩ := poked s.machine.memory Header.flags1Address
    (sessionFlags1 s.flags1 (Host.supportsSplit s.host)) (by decide) room
  obtain ⟨run₂, room₂⟩ :=
    poked _ Header.interpreterNumberAddress interpreterNumber (by decide) room₁
  obtain ⟨run₃, room₃⟩ :=
    poked _ Header.interpreterVersionAddress interpreterVersion (by decide) room₂
  obtain ⟨run₄, room₄⟩ := poked _ Header.standardRevisionAddress 1 (by decide) room₃
  obtain ⟨run₅, -⟩ := poked _ (Header.standardRevisionAddress + 1) 1 (by decide) room₄
  have first : s.machine.inspect Header.flags1Address = .ok s.flags1 :=
    if_pos (Nat.lt_of_lt_of_le (by decide) room)
  rw [prepareHeader, bind_of_ok (ask_of_ok first), get_bind]
  refine onMachine_of_ok ?_
  rw [bind_of_ok run₁, bind_of_ok run₂, bind_of_ok run₃, bind_of_ok run₄, run₅]
  rfl

/-- The machine is in the state of a snapshot but for what belongs to the session. -/
structure InStateOf (snapshot : Snapshot) (before after : Machine) : Prop where
  story_eq : after.story = before.story
  pc_eq : after.pc = snapshot.head.pc
  frames_eq : after.frames = snapshot.frames
  memory : Memory.AgreeBut Machine.sessionAddresses after.memory
    (snapshot.appliedTo before).memory

theorem InStateOf.dynamic_le {before after : Machine} (h : InStateOf snapshot before after)
    (hs : story.Sound) (hm : before.Sound story) (fits : snapshot.Fits story) :
    after.dynamicSize ≤ after.memory.size := by
  have applied := fits.sound_appliedTo hs hm
  rw [h.memory.size_eq, applied.size_eq, Machine.dynamicSize, h.story_eq, hm.story_eq]
  exact hs.dynamic_le

/-- The state after a snapshot has been taken over by a machine that has come to `m`. -/
def tookOver (s : Interpreter H) (m : Machine) : Interpreter H :=
  { s with machine := m, streams := { s.streams with tables := [] }, state := .running }

/-- Taking over a snapshot that fits always succeeds, and says nothing to the host. -/
theorem takeOver_eq_tookOver [Host H] (hs : story.Sound) (hm : s.machine.Sound story)
    (fits : snapshot.Fits story) :
    takeOver snapshot s = .ok () (tookOver s { snapshot.appliedTo s.machine with
      memory := Machine.sessionMemory (Host.supportsSplit s.host) s.machine.memory
        (snapshot.appliedTo s.machine).memory }) := by
  have applied := fits.sound_appliedTo hs hm
  have room : Header.length ≤ (snapshot.appliedTo s.machine).memory.size :=
    Nat.le_trans hs.header_le (applied.dynamicSize_eq ▸ applied.dynamic_le hs)
  have overwritten := onMachine_of_ok (s := s)
    (Machine.keepingSessionBits_eq (Snapshot.apply_eq (fits.length_le hs hm.plays)) room)
  rw [takeOver, bind_of_ok overwritten, bind_of_ok (prepareHeader_eq ?_)]
  · rfl
  · rw [Machine.withSessionBits, Memory.size_put]
    exact room

theorem takeOver_eq [Host H] (hs : story.Sound) (hm : s.machine.Sound story)
    (fits : snapshot.Fits story) :
    ∃ m, InStateOf snapshot s.machine m ∧ takeOver snapshot s = .ok () (tookOver s m) := by
  refine ⟨_, ⟨?_, ?_, ?_, ?_⟩, takeOver_eq_tookOver hs hm fits⟩
  · rfl
  · rfl
  · rfl
  · dsimp only
    exact Machine.agreeBut_sessionMemory _ _ _

end Interpreter

end ZMachine
