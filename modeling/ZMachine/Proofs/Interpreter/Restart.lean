import ZMachine.Proofs.Interpreter.Conversation
import ZMachine.Proofs.Interpreter.Reachable
import ZMachine.Proofs.Interpreter.Session

/-!
# Starting over

Restarting a reachable interpreter and loading its image anew lead to the same state (`Anew`), but
for the two session bits of flags 2, the random numbers, the count of instructions and the host. Two
facts carry this: no request changes the story, the dictionary or the limit (`Reachable.furnished`),
and it makes no difference whether the session's bits are put back before the header is filled in or
behind it (`preparedMemory_withSessionBits`). The one thing that restarting does not set, where the
last instruction stood, is of no account for what follows (`Companions.converse`).
-/

namespace ZMachine

namespace Machine

variable {live saved : Memory} {address : Nat}

theorem byte_withSessionBits (ne : address ≠ Header.flags2Address + 1) :
    (withSessionBits live saved).byte address = saved.byte address := by
  rw [withSessionBits, Memory.byte_put, if_neg fun at_flags => ne at_flags.1.symm]

theorem withSessionBits_put (value : UInt8) (ne : address ≠ Header.flags2Address + 1) :
    withSessionBits live (saved.put address value) =
      (withSessionBits live saved).put address value := by
  rw [withSessionBits, Memory.byte_put, if_neg fun at_flags => ne at_flags.1]
  exact Array.setIfInBounds_comm _ _ ne

/-- The session's bits lie in none of the bytes that filling in the header concerns. -/
theorem preparedMemory_withSessionBits (live saved : Memory) (canSplit : Bool) :
    preparedMemory (withSessionBits live saved) canSplit =
      withSessionBits live (preparedMemory saved canSplit) := by
  rw [preparedMemory, preparedMemory, withSessionBits_put _ (by decide),
    withSessionBits_put _ (by decide), withSessionBits_put _ (by decide),
    withSessionBits_put _ (by decide), withSessionBits_put _ (by decide),
    byte_withSessionBits (by decide)]

end Machine

/-- The configuration does not refuse the story for its version. -/
def InterpreterConfig.Admits (config : InterpreterConfig) (story : Story) : Prop :=
  ¬ (config.strictVersion ∧ story.header.version ≠ 3)

namespace Interpreter

variable {H K : Type} [Host H] [Host K] {image : Memory} {story : Story} {s t : Interpreter H}
  {f : Interpreter K} {config : InterpreterConfig}

/-! ### What is never reset because it never changes -/

/-- The interpreter has the dictionary of the story, and the limit that the configuration gives. -/
structure Furnished (story : Story) (config : InterpreterConfig) (s : Interpreter H) : Prop where
  dictionary :
    Dictionary.read story.image story.header.dictionary.toNat = .ok s.dictionary
  limit_eq : s.limit = config.limit?

omit [Host H] in
theorem detached_furnished : Detached (Furnished story config : Interpreter H → Prop) where
  setMachine _ h := ⟨h.dictionary, h.limit_eq⟩
  setHost _ h := ⟨h.dictionary, h.limit_eq⟩
  roll _ h := ⟨h.dictionary, h.limit_eq⟩
  setState _ h := ⟨h.dictionary, h.limit_eq⟩
  setCurrentPc _ h := ⟨h.dictionary, h.limit_eq⟩
  selectStream := maintains_selectStream_of_streams (fun _ h => ⟨h.dictionary, h.limit_eq⟩)
    fun _ h => ⟨h.dictionary, h.limit_eq⟩
  closeTables h := ⟨h.dictionary, h.limit_eq⟩
  restartStreams h := ⟨h.dictionary, h.limit_eq⟩

theorem Reachable.furnished (reachable : Reachable image s) :
    ∃ story config, Story.load image = .ok story ∧ config.Admits story ∧
      Furnished story config s := by
  induction reachable with
  | @loaded story host config entropy s hstory h =>
    refine ⟨story, config, hstory, ?_⟩
    rw [load_eq (Story.sound_of_load hstory).1] at h
    split at h
    · cases h
    · next admits =>
      obtain ⟨dictionary, read, rfl⟩ := except_map_eq_ok.mp h
      exact ⟨admits, read, rfl⟩
  | @after s reachable request ih =>
    obtain ⟨story, config, hstory, admits, furnished⟩ := ih
    refine ⟨story, config, hstory, admits, ?_⟩
    have kept : Maintains (Furnished story config) request.perform :=
      detached_furnished.perform (fun _ h => ⟨h.dictionary, h.limit_eq⟩) request
    exact inv_after_of_kept (kept s furnished)

/-! ### The state after a restart -/

/-- The state after a restart: what is not set stays. -/
def restarted (story : Story) (s : Interpreter H) : Interpreter H :=
  { s with
    machine :=
      { Machine.start story with
        memory :=
          Machine.sessionMemory (Host.supportsSplit s.host) s.machine.memory story.image }
    streams := {}
    state := .running
    host := Host.restarted s.host }

theorem restart_eq (hs : story.Sound) (hm : s.machine.Sound story) :
    restart s = .ok () (restarted story s) := by
  have room : Header.length ≤ story.image.size := Nat.le_trans hs.header_le hs.dynamic_le
  have started : (modify fun m => Machine.start m.story : MachineM Unit) s.machine =
      .ok () (Machine.start story) := by
    rw [← hm.story_eq]
    rfl
  have overwritten := onMachine_of_ok (s := s) (Machine.keepingSessionBits_eq started room)
  have room' : Header.length ≤ (Machine.withSessionBits s.machine.memory story.image).size := by
    rw [Machine.withSessionBits, Memory.size_put]
    exact room
  rw [restart, Machine.restart, bind_of_ok overwritten, bind_of_ok (prepareHeader_eq room')]
  rfl

/-- The interpreter `t`, which has been restarted in the state `s`, is like `f`, which has just been
loaded, but for the bits of flags 2 for the transcript and for fixed pitch, which are as in `s`. -/
structure Anew (s t : Interpreter H) (f : Interpreter K) : Prop where
  frames_eq : t.machine.frames = f.machine.frames
  pc_eq : t.machine.pc = f.machine.pc
  state_eq : t.state = f.state
  streams_eq : t.streams = f.streams
  size_eq : t.machine.memory.size = f.machine.memory.size
  byte_eq : ∀ address, address ≠ Header.flags2Address + 1 →
    t.machine.memory.byte address = f.machine.memory.byte address
  flags_eq : t.machine.memory.byte (Header.flags2Address + 1) =
    f.machine.memory.byte (Header.flags2Address + 1) &&& 0xFC |||
      s.machine.memory.byte (Header.flags2Address + 1) &&& 3

/-- A loaded interpreter that goes on with the session's bits, the random numbers and the count of
another one. -/
def takingUp (s : Interpreter H) (f : Interpreter K) : Interpreter K :=
  { f with
    machine :=
      { f.machine with memory := Machine.withSessionBits s.machine.memory f.machine.memory }
    random := s.random
    count := s.count }

omit [Host H] [Host K] in
theorem anew_of_machine_eq (machine_eq : t.machine = (takingUp s f).machine)
    (room : Header.flags2Address + 1 < f.machine.memory.size) (state_eq : t.state = f.state)
    (streams_eq : t.streams = f.streams) : Anew s t f := by
  have memory_eq : t.machine.memory =
      Machine.withSessionBits s.machine.memory f.machine.memory := by
    rw [machine_eq, takingUp]
  constructor
  case frames_eq => rw [machine_eq, takingUp]
  case pc_eq => rw [machine_eq, takingUp]
  case state_eq => exact state_eq
  case streams_eq => exact streams_eq
  case size_eq => rw [memory_eq, Machine.withSessionBits, Memory.size_put]
  case byte_eq =>
    intro address ne
    rw [memory_eq, Machine.byte_withSessionBits ne]
  case flags_eq => rw [memory_eq, Machine.withSessionBits, Memory.byte_put, if_pos ⟨rfl, room⟩]

section Loaded

variable {host : K} {entropy : Entropy} {dictionary : Dictionary}

theorem machine_restarted (capable : Host.supportsSplit host = Host.supportsSplit s.host) :
    (restarted story s).machine =
      (takingUp s (loadedState story host config entropy dictionary)).machine := by
  simp only [restarted, takingUp, loadedState, capable, Machine.sessionMemory,
    Machine.preparedMemory_withSessionBits]

theorem size_loadedState :
    (loadedState story host config entropy dictionary).machine.memory.size = story.image.size := by
  simp only [loadedState]
  exact (Machine.agreeBut_preparedMemory _ _).size_eq

theorem anew_restarted (hs : story.Sound)
    (capable : Host.supportsSplit host = Host.supportsSplit s.host) :
    Anew s (restarted story s) (loadedState story host config entropy dictionary) := by
  refine anew_of_machine_eq (machine_restarted capable) ?_ rfl rfl
  rw [size_loadedState]
  exact Nat.lt_of_lt_of_le (by decide) (Nat.le_trans hs.header_le hs.dynamic_le)

theorem companions_restarted
    (capable : Host.supportsSplit host = Host.supportsSplit s.host)
    (dictionary_eq : s.dictionary = dictionary) (limit_eq : config.limit? = s.limit) :
    Companions (fun _ _ => True) Eq (restarted story s)
      (takingUp s (loadedState story host config entropy dictionary)) where
  machine_eq := (machine_restarted capable).symm
  dictionary_eq := dictionary_eq.symm
  streams_eq := rfl
  currentPc_eq := trivial
  count_eq := rfl
  limit_eq := limit_eq
  hosts := trivial
  randoms := rfl
  states := rfl

end Loaded

/-- Whatever has been requested of an interpreter, restarting it and loading its image anew for a
host with the same capabilities lead to the same state but for the session's bits. With these, the
random numbers and the count carried over, and with the limit that was configured, nobody can tell
the two apart from then on. -/
theorem anew_of_reachable (reachable : Reachable image s) :
    ∃ story, Story.load image = .ok story ∧ restart s = .ok () (restarted story s) ∧
      (∃ config : InterpreterConfig, config.Admits story ∧ config.limit? = s.limit) ∧
      ∀ {K : Type} [Host K] (host : K) (config : InterpreterConfig) (entropy : Entropy),
        Host.supportsSplit host = Host.supportsSplit s.host → config.Admits story →
          ∃ f, load story host config entropy = .ok f ∧ Anew s (restarted story s) f ∧
            (config.limit? = s.limit →
              Interchangeable (restarted story s) (takingUp s f)) := by
  obtain ⟨story, config, hstory, admits, furnished⟩ := reachable.furnished
  obtain ⟨story', hstory', hs, sound⟩ := reachable.sound
  obtain rfl : story = story' := Except.ok.inj (hstory.symm.trans hstory')
  refine ⟨story, hstory, restart_eq hs sound.machine, ⟨config, admits, furnished.limit_eq.symm⟩, ?_⟩
  intro K _ host config entropy capable admits
  refine ⟨_, load_of_read hstory admits furnished.dictionary, anew_restarted hs capable, ?_⟩
  intro limited
  exact interchangeable_of_companions (companions_restarted capable rfl limited)

/-- The image of a story that switches on the transcript and quits. -/
def transcribingImage : Memory :=
  smallImage.putBytes 0x40 [0xF3, 0x7F, 0x02, 0xBA]

def transcribingStory : Story :=
  { image := transcribingImage, header := Header.ofMemory transcribingImage }

def transcribingStart : Interpreter Scripted :=
  loadedState transcribingStory {} {} (.always 0)
    { separators := [], entryLength := 4, entryCount := 0, entries := 0x4C }

/-- The transcript stays switched on. -/
theorem anew_transcribingStart :
    Reachable transcribingImage (after Request.step.perform transcribingStart) ∧
      ∃ f, load transcribingStory ({} : Scripted) {} (.always 7) = .ok f ∧
        Anew (after Request.step.perform transcribingStart)
          (restarted transcribingStory (after Request.step.perform transcribingStart)) f ∧
        Interchangeable
          (restarted transcribingStory (after Request.step.perform transcribingStart))
          (takingUp (after Request.step.perform transcribingStart) f) ∧
        f.machine.transcriptOn = false ∧
        (restarted transcribingStory
          (after Request.step.perform transcribingStart)).machine.transcriptOn = true := by
  have loaded : Story.load transcribingImage = .ok transcribingStory :=
    Story.load_of_le (by decide +kernel) (by decide +kernel)
  have start : Reachable transcribingImage transcribingStart :=
    .loaded loaded (load_of_read loaded (by decide) (by decide +kernel))
  have reachable := start.after Request.step
  obtain ⟨story, loaded', -, -, anew⟩ := anew_of_reachable reachable
  obtain rfl := Except.ok.inj (loaded.symm.trans loaded')
  have capable : Host.supportsSplit ({} : Scripted) =
      Host.supportsSplit (after Request.step.perform transcribingStart).host := by
    decide +kernel
  have admits : ({} : InterpreterConfig).Admits transcribingStory := nofun
  have limited : ({} : InterpreterConfig).limit? =
      (after Request.step.perform transcribingStart).limit := by
    decide +kernel
  obtain ⟨f, found, same, alike⟩ := anew ({} : Scripted) {} (.always 7) capable admits
  refine ⟨reachable, f, found, same, alike limited, ?_, by decide +kernel⟩
  have read : Dictionary.read transcribingStory.image
      transcribingStory.header.dictionary.toNat = .ok transcribingStart.dictionary := by
    decide +kernel
  obtain rfl := Except.ok.inj ((load_of_read loaded admits read).symm.trans found)
  decide +kernel

end Interpreter

end ZMachine
