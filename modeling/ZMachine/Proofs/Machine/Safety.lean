import ZMachine.Proofs.Machine.Bounds
import ZMachine.Proofs.Machine.Invariant

/-!
# Safe operations of the machine

An operation is safe for a story if it keeps the invariant of its machines and never faults. Only
images of `imageLimit` bytes or more are excused, in which a place in memory need not be an address.
Here are memory, the flags, variables and routines.
-/

namespace ZMachine.Machine

/-- Below this size, all places in an image are addresses. -/
def imageLimit : Nat := 0x8000_0000

/-- The operation keeps the invariant, and faults at most if the image is too large. -/
def Safe {α : Type} (story : Story) (operation : MachineM α) : Prop :=
  Keeps (Sound story) (fun _ => imageLimit ≤ story.image.size) operation

variable {story : Story} {m : Machine} {address : Nat} {value : UInt8}

theorem Sound.dynamic_le (h : m.Sound story) (hs : story.Sound) :
    m.dynamicSize ≤ m.memory.size :=
  h.plays.dynamic_le hs

theorem Sound.header_lt (h : m.Sound story) (hs : story.Sound) (inside : address < Header.length) :
    address < m.memory.size :=
  Nat.lt_of_lt_of_le inside (Nat.le_trans hs.header_le (h.dynamicSize_eq ▸ h.dynamic_le hs))

/-! ### Memory -/

theorem safe_writeByte (hs : story.Sound)
    (addressable : story.image.size < imageLimit → address < addressLimit) :
    Safe story (writeByte address value) := by
  intro m h
  rcases Nat.lt_or_ge address m.dynamicSize with dynamic | static
  · rw [writeByte_of_lt dynamic (Nat.lt_of_lt_of_le dynamic (h.dynamic_le hs))]
    exact h.withByte (h.dynamicSize_eq ▸ dynamic)
  · rcases Nat.lt_or_ge address addressLimit with near | far
    · rw [writeByte_of_le static near]
      exact ⟨h, nofun⟩
    · rw [writeByte, if_pos far]
      refine ⟨h, fun _ => Nat.le_of_not_lt fun small => ?_⟩
      exact Nat.not_lt.mpr far (addressable small)

theorem safe_writeWord {w : UInt16} (hs : story.Sound)
    (addressable : story.image.size < imageLimit → address + 1 < addressLimit) :
    Safe story (writeWord address w) :=
  Keeps.bind (safe_writeByte hs fun small => Nat.lt_of_succ_lt (addressable small)) fun _ =>
    safe_writeByte hs addressable

theorem safe_writeBytes {values : List UInt8} (hs : story.Sound)
    (addressable : address + values.length ≤ addressLimit) :
    Safe story (writeBytes address values) := by
  induction values generalizing address with
  | nil => exact Keeps.pure ()
  | cons b rest ih =>
    rw [List.length_cons] at addressable
    exact Keeps.bind (safe_writeByte hs fun _ => by omega) fun _ => ih (by omega)

theorem safe_poke (hs : story.Sound) (inside : address < Header.length) :
    Safe story (poke address value) := by
  intro m h
  rw [poke_of_lt (h.header_lt hs inside)]
  exact h.withByte (Nat.lt_of_lt_of_le inside hs.header_le)

theorem safe_setFlags2 {w : UInt16} (hs : story.Sound) : Safe story (setFlags2 w) :=
  Keeps.bind (safe_poke hs (by decide)) fun _ => safe_poke hs (by decide)

theorem safe_setTranscript {on : Bool} (hs : story.Sound) : Safe story (setTranscript on) :=
  Keeps.get_bind fun m h => safe_setFlags2 hs m h

/-- What overwrites memory safely does so under the session's bits of flags 2, too. -/
theorem safe_keepingSessionBits {overwrite : MachineM Unit} (hs : story.Sound)
    (h : Safe story overwrite) : Safe story (keepingSessionBits overwrite) :=
  Keeps.get_bind fun m hm => (h m hm).bind fun _ t _ ht => safe_setFlags2 hs t ht

theorem safe_restart (hs : story.Sound) : Safe story restart := by
  refine safe_keepingSessionBits hs (Keeps.modify fun m h => ?_)
  rw [h.story_eq]
  exact sound_start story

theorem lt_addressLimit_of_word (address : UInt16) : address.toNat + 1 < addressLimit := by
  have bound := address.toNat_lt
  simp only [addressLimit]
  omega

theorem wordAt_ne_fault (addressable : address + 1 < addressLimit) :
    m.wordAt address ≠ .error .fault := by
  rw [wordAt, if_pos addressable]
  exact nofun

theorem safe_jump {offset : Int} : Safe story (jump offset) := by
  refine Keeps.modify fun m h => { h with pc_lt := ?_ }
  have positive : (0 : Int) < addressLimit := by decide
  have below := Int.emod_lt_of_pos (m.pc + offset - 2) positive
  have nonneg := Int.emod_nonneg (m.pc + offset - 2) (Int.ne_of_gt positive)
  show ((m.pc + offset - 2) % addressLimit).toNat < addressLimit
  omega

/-! ### Variables -/

theorem Sound.withStack {stack : List UInt16} (h : m.Sound story)
    (bound : stack.length ≤ stackLimit) : (m.withStack stack).Sound story :=
  h.withInnermost { h.innermost with stack_le := bound } id

theorem safe_push {w : UInt16} : Safe story (push w) := by
  intro m h
  rw [push]
  split
  · exact ⟨h, nofun⟩
  · next room => exact h.withStack (Nat.lt_of_not_le room)

theorem Sound.stack_tail {w : UInt16} {rest : List UInt16} (h : m.Sound story)
    (eq : m.stack = w :: rest) : rest.length < stackLimit := by
  have bound : m.stack.length ≤ stackLimit := h.innermost.stack_le
  rw [eq] at bound
  exact bound

theorem safe_pop : Safe story pop := by
  intro m h
  rw [pop]
  split
  · exact ⟨h, nofun⟩
  · next eq => exact h.withStack (Nat.le_of_lt (h.stack_tail eq))

theorem safe_replaceTop {w : UInt16} : Safe story (replaceTop w) := by
  intro m h
  rw [replaceTop]
  split
  · exact ⟨h, nofun⟩
  · next eq => exact h.withStack (h.stack_tail eq)

theorem safe_writeLocal {number : Nat} {w : UInt16} (positive : number ≠ 0) :
    Safe story (writeLocal number w) := by
  intro m h
  rw [writeLocal, if_neg positive]
  refine h.withInnermost { h.innermost with locals_le := ?_ } fun empty => ?_
  · simpa using h.innermost.locals_le
  · simp [empty]

theorem globalAddress_lt (m : Machine) (number : UInt8) :
    m.globalAddress number + 1 < addressLimit := by
  have table := m.story.header.globals.toNat_lt
  have bound := number.toNat_lt
  simp only [globalAddress, addressLimit]
  omega

theorem readGlobal_ne_fault {number : UInt8} : m.readGlobal number ≠ .error .fault := by
  rw [readGlobal_eq]
  split
  · exact nofun
  · exact wordAt_ne_fault (m.globalAddress_lt number)

theorem safe_writeGlobal {number : UInt8} {w : UInt16} (hs : story.Sound) :
    Safe story (writeGlobal number w) := by
  rw [writeGlobal_eq]
  refine Keeps.get_bind fun m h => ?_
  split
  · exact ⟨h, nofun⟩
  · exact safe_writeWord hs (fun _ => m.globalAddress_lt number) m h

theorem readLocal_ne_fault {number : Nat} (positive : number ≠ 0) :
    m.readLocal number ≠ .error .fault := by
  rw [readLocal, if_neg positive]
  exact nofun

theorem toNat_ne_zero_of_ne {number : UInt8} (ne : ¬ number = 0) : number.toNat ≠ 0 :=
  fun eq => ne (UInt8.toNat_inj.mp eq)

theorem safe_readVariable {number : UInt8} : Safe story (readVariable number) := by
  rw [readVariable]
  split
  · exact safe_pop
  · next ne =>
    split
    · exact Keeps.query fun m _ fault =>
        absurd fault (readLocal_ne_fault (toNat_ne_zero_of_ne ne))
    · exact Keeps.query fun m _ fault => absurd fault readGlobal_ne_fault

theorem safe_writeVariable {number : UInt8} {w : UInt16} (hs : story.Sound) :
    Safe story (writeVariable number w) := by
  rw [writeVariable]
  split
  · exact safe_push
  · next ne =>
    split
    · exact safe_writeLocal (toNat_ne_zero_of_ne ne)
    · exact safe_writeGlobal hs

theorem readInPlace_ne_fault {number : UInt8} : m.readInPlace number ≠ .error .fault := by
  rw [readInPlace]
  split
  · rw [peek]
    split <;> exact nofun
  · next ne =>
    split
    · exact readLocal_ne_fault (toNat_ne_zero_of_ne ne)
    · exact readGlobal_ne_fault

theorem safe_writeInPlace {number : UInt8} {w : UInt16} (hs : story.Sound) :
    Safe story (writeInPlace number w) := by
  rw [writeInPlace]
  split
  · exact safe_replaceTop
  · next ne =>
    split
    · exact safe_writeLocal (toNat_ne_zero_of_ne ne)
    · exact safe_writeGlobal hs

/-! ### Routines -/

theorem length_overrideLocals (defaults arguments : List UInt16) :
    (overrideLocals defaults arguments).length = defaults.length := by
  induction defaults generalizing arguments with
  | nil => cases arguments <;> rfl
  | cons d rest ih =>
    cases arguments with
    | nil => rfl
    | cons a more =>
      rw [overrideLocals, List.length_cons, List.length_cons, ih]

theorem safe_enter {routine : Nat} {arguments : List UInt16} {store : Option UInt8}
    (addressable : routine < 0x20000) : Safe story (enter routine arguments store) := by
  intro m h
  rw [enter]
  dsimp only
  split
  · exact ⟨h, nofun⟩
  · next shallow =>
    split
    · exact ⟨h, nofun⟩
    · next few =>
      rw [if_neg (by simp only [localsLimit, addressLimit] at few ⊢; omega)]
      refine { h with pc_lt := ?_, frames := h.frames.enter ⟨?_, Nat.zero_le _, h.pc_lt⟩ ?_ }
      · simp only [localsLimit, addressLimit] at few ⊢
        omega
      · rw [length_overrideLocals, localDefaults, List.length_map, List.length_range]
        exact Nat.le_of_not_lt few
      · simp only [depthLimit, frameLimit] at shallow ⊢
        omega

theorem safe_leave : Safe story leave := by
  intro m h
  rw [leave]
  split
  · exact ⟨h, nofun⟩
  · next eq => exact { h with pc_lt := h.innermost.returnPc_lt, frames := h.frames.leave eq }

theorem safe_callPacked {packed : UInt16} {arguments : List UInt16} {store : Option UInt8} :
    Safe story (callPacked packed arguments store) := by
  refine Keeps.query_bind (fun m _ fault => ?_) fun m routine h found => ?_
  · simp only [routineAddress] at fault
    split at fault <;> cases fault
  · have bound := packed.toNat_lt
    simp only [routineAddress] at found
    split at found
    · cases found
    · cases found
      exact safe_enter (by omega) m h

theorem safe_giveBack {value : UInt16} (hs : story.Sound) : Safe story (giveBack value) := by
  refine Keeps.bind safe_leave fun frame => ?_
  cases frame.store with
  | none => exact Keeps.pure ()
  | some number => exact safe_writeVariable hs

end ZMachine.Machine
