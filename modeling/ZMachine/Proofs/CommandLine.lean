import ZMachine.CommandLine
import ZMachine.Proofs.Host.Recorded
import ZMachine.Proofs.Interpreter.Reachable

/-!
# Playing from the command line

The program plays the same game as a scripted host that has the lines of standard input
(`mirrors_of_run`): what it writes is what becomes visible of that host, and its exit code says how
the run has ended. The two hosts are compared by way of a third one that records what becomes
visible. Settings and story are refused or accepted before any host matters (`refused_or_accepted`).
All this holds whatever the deserializer makes of a configuration, and on any screen; the lines are
among the output where there is none.
-/

namespace ZMachine

namespace Interpreter

/-- Loading refuses an image for every host, or accepts it for every host. -/
theorem refused_or_accepted (image : Memory) (config : InterpreterConfig) :
    (∃ why, ∀ {H : Type} [Host H] (host : H) entropy,
      (Story.load image >>= fun story => load story host config entropy) = .error why) ∨
    ∃ story dictionary, story.Sound ∧ ∀ {H : Type} [Host H] (host : H) entropy,
      (Story.load image >>= fun story => load story host config entropy) =
        .ok (loadedState story host config entropy dictionary) := by
  cases accepted : Story.load image with
  | error why => exact .inl ⟨why, fun _ _ => rfl⟩
  | ok story =>
    have hs := (Story.sound_of_load accepted).1
    by_cases refused : config.strictVersion ∧ story.header.version ≠ 3
    · refine .inl ⟨.unsupportedVersion story.header.version, fun host entropy => ?_⟩
      exact (load_eq hs).trans (if_pos refused)
    · cases read : Dictionary.read story.image story.header.dictionary.toNat with
      | error why =>
        refine .inl ⟨why, fun host entropy => ?_⟩
        refine (load_eq hs).trans ((if_neg refused).trans ?_)
        rw [read]
        rfl
      | ok dictionary =>
        exact .inr ⟨story, dictionary, hs, fun _ _ => load_of_read accepted refused read⟩

end Interpreter

namespace CommandLine

open Interpreter

variable {around : Surroundings} {args : List String} {arguments : Arguments}
  {directory : Directory} {base : Config} {image : List UInt8}

/-- What the configuration file says; without one, everything is as by default. -/
def configuration? (around : Surroundings) (arguments : Arguments) (directory : Directory) :
    Option Config :=
  match arguments.config with
  | none => some {}
  | some path =>
    (directory.read? path).bind Text.ofUtf8? |>.bind (Config.parse around.deserialize)

/-- The settings of the interpreter. A seed among the arguments takes precedence. -/
def interpreterConfig (arguments : Arguments) (base : Config) : InterpreterConfig :=
  { base.interpreter with seed := arguments.seed.or base.interpreter.seed }

theorem settings_eq (configured : configuration? around arguments directory = some base) :
    settings around arguments directory =
      .ok { base with interpreter := interpreterConfig arguments base } := by
  obtain ⟨story, file, seed⟩ := arguments
  cases file with
  | none =>
    cases configured
    cases seed with
    | none | some => rfl
  | some path =>
    have read : ((directory.read? path).bind Text.ofUtf8?).bind
        (Config.parse around.deserialize) = some base :=
      configured
    simp only [settings, read]
    cases seed with
    | none | some => rfl

/-- The lines of standard input without their ends. -/
def linesOf (input : String) : List String :=
  (Text.lines input.toList).map Terminal.lineOf

/-- The story ready to play on a scripted host with these lines. -/
def scripted (image : List UInt8) (lines : List String) (config : InterpreterConfig)
    (entropy : Entropy) : Except MachineError (Interpreter Scripted) :=
  Story.load image.toArray >>= fun story =>
    Interpreter.load story ({ inputs := lines } : Scripted) config entropy

/-- The interpreter with a record of what becomes visible of its host. -/
def recording (s : Interpreter Scripted) : Interpreter Recorded :=
  { s with host := { host := s.host } }

/-- What becomes visible in a run. -/
def record (s : Interpreter Scripted) : Recorded :=
  (after Interpreter.run (recording s)).host

/-- The program has ended as the run from `s` with these lines does, and has written what becomes
visible in it. -/
structure Mirrors (screen : Screen) (config : TerminalConfig) (exit : Exit) (lines : List String)
    (s : Interpreter Scripted) : Prop where
  /-- The record is that of the run: taking it changes neither the result nor the final state. -/
  recorded : result Interpreter.run (recording s) = result Interpreter.run s ∧
    Companions (Records lines) Eq (after Interpreter.run s) (after Interpreter.run (recording s))
  quit : result Interpreter.run s = .ok (some .quit) →
    exit.code = 0 ∧ exit.output = (record s).shownOn screen config
  waiting : ∀ text parse, result Interpreter.run s = .ok (some (.waiting text parse)) →
    exit.code = 0 ∧ exit.output = (record s).shownOn screen config ++ "\n"
  failed : ∀ e, result Interpreter.run s = .error e →
    exit.code = 1 ∧ exit.output = (record s).shownOn screen config
  /-- If the output goes to no screen, this is all the text, with each line where it was read. -/
  echoed : screen.interactive = false → (record s).shownOn screen config = (record s).echoed
  ended : result Interpreter.run s ≠ .ok none ∧ result Interpreter.run s ≠ .ok (some .running)

theorem start_eq (configured : configuration? around arguments directory = some base)
    (stored : directory.read? arguments.story = some image) :
    start around arguments directory =
      match Story.load image.toArray >>= fun story =>
          Interpreter.load story (Terminal.opened base.terminal around.screen directory)
            (interpreterConfig arguments base) around.entropy with
      | .ok s => .ok s
      | .error why => .error (.machine why) := by
  rw [start, except_bind_of_ok (settings_eq configured), stored]
  rfl

theorem run_of_refused {input : String} {refusal : Refusal} (parsed : parse args = .ok arguments)
    (refused : start around arguments directory = .error refusal) :
    run around args directory input =
      { code := refusal.code, output := refusal.output, files := directory.files } := by
  rw [run, parsed, except_bind_of_ok rfl, refused]

theorem run_of_started {input : String} {t : Interpreter Terminal}
    (parsed : parse args = .ok arguments)
    (started : start around arguments directory = .ok t) :
    run around args directory input =
      finish (Interpreter.run { t with host.input := Text.lines input.toList }) := by
  rw [run, parsed, except_bind_of_ok rfl, started]

/-- How the program finishes is read off the run. -/
theorem finish_run (s : Interpreter Terminal) :
    (result Interpreter.run s = .ok (some .quit) →
      (finish (Interpreter.run s)).code = 0 ∧
        (finish (Interpreter.run s)).output = (after Interpreter.run s).host.written) ∧
    (∀ text parse, result Interpreter.run s = .ok (some (.waiting text parse)) →
      (finish (Interpreter.run s)).code = 0 ∧
        (finish (Interpreter.run s)).output =
          (after Interpreter.run s).host.written ++ "\n") ∧
    ∀ e, result Interpreter.run s = .error e →
      (finish (Interpreter.run s)).code = 1 ∧
        (finish (Interpreter.run s)).output = (after Interpreter.run s).host.written := by
  refine ⟨fun quit => ?_, fun text parse waiting => ?_, fun e failed => ?_⟩
  · rw [eq_ok_of_result quit]
    exact ⟨rfl, rfl⟩
  · rw [eq_ok_of_result waiting]
    exact ⟨rfl, rfl⟩
  · rw [eq_error_of_result failed]
    exact ⟨rfl, rfl⟩

theorem mirrors_of_companions {screen : Screen} {config : TerminalConfig} {lines : List String}
    {t : Interpreter Terminal} {s : Interpreter Scripted}
    (mimics : Companions (Mimics screen config) SameSeed t (recording s))
    (records : Records lines s.host (recording s).host)
    (selfContained : ∀ inst values, Executed t inst values → SelfContained inst values) :
    Mirrors screen config (finish (Interpreter.run t)) lines s := by
  obtain ⟨mimicked, left⟩ := result_eq_of_matched
    (mimics.run answering_mimics rfl fun inst values executed =>
      (selfContained inst values executed).indifferent)
  have companions : Companions (Records lines) Eq s (recording s) :=
    { machine_eq := rfl
      dictionary_eq := rfl
      streams_eq := rfl
      currentPc_eq := trivial
      count_eq := rfl
      limit_eq := rfl
      hosts := records
      randoms := rfl
      states := rfl }
  have recorded := result_eq_of_matched
    (companions.run answering_records rfl fun inst values _ =>
      keeping_records.indifferent inst values)
  have same : result Interpreter.run t = result Interpreter.run s :=
    mimicked.symm.trans recorded.1
  have written : (after Interpreter.run t).host.written = (record s).shownOn screen config :=
    left.hosts.written_eq
  obtain ⟨quit, waiting, failed⟩ := finish_run t
  rw [same, written] at quit failed
  refine ⟨recorded, quit, fun text parse => ?_, failed, Recorded.shownOn_eq_echoed,
    fun gaveOut => ?_, fun runs => ?_⟩
  · rw [← written, ← same]
    exact waiting text parse
  · exact run_ne_none rfl (eq_ok_of_result gaveOut)
  · exact stopped_of_run rfl (eq_ok_of_result runs) rfl

/-- Both hosts get the same machine, since neither can split the screen. -/
theorem companions_start {story : Story} {dictionary : Dictionary} {screen : Screen}
    {terminal : TerminalConfig} {config : InterpreterConfig} {seed : UInt32}
    {entropy entropy' : Entropy} {input : List (List Char)} (seeded : config.seed = some seed) :
    Companions (Mimics screen terminal) SameSeed
      { loadedState story (Terminal.opened terminal screen directory) config entropy dictionary with
        host.input := input }
      (recording (loadedState story ({ inputs := input.map Terminal.lineOf } : Scripted) config
        entropy' dictionary)) where
  machine_eq := by simp only [recording, loadedState, Host.supportsSplit]
  dictionary_eq := rfl
  streams_eq := rfl
  currentPc_eq := trivial
  count_eq := rfl
  limit_eq := rfl
  hosts := ⟨rfl, rfl, rfl, rfl, fun _ => rfl, rfl⟩
  randoms := by
    simp only [SameSeed, recording, loadedState, unprepared, initialRandom, seeded]
    rfl
  states := rfl

/-- What the program writes is what a terminal shows of a run of the scripted host, the lines among
the text if there is no screen, and a line end if the story waits for one more line. -/
theorem mirrors_of_run {input : String} {seed : UInt32} (entropy' : Entropy)
    (parsed : parse args = .ok arguments)
    (configured : configuration? around arguments directory = some base)
    (seeded : (interpreterConfig arguments base).seed = some seed)
    (stored : directory.read? arguments.story = some image)
    (selfContained : ∀ s, start around arguments directory = .ok s → ∀ inst values,
      Executed { s with host.input := Text.lines input.toList } inst values →
        SelfContained inst values) :
    (∀ why, scripted image (linesOf input) (interpreterConfig arguments base) entropy' =
        .error why →
      (run around args directory input).code = 1 ∧
        (run around args directory input).output = "") ∧
    ∀ s, scripted image (linesOf input) (interpreterConfig arguments base) entropy' = .ok s →
      Mirrors around.screen base.terminal (run around args directory input) (linesOf input) s := by
  have started := start_eq configured stored
  rcases refused_or_accepted image.toArray (interpreterConfig arguments base) with
    ⟨why, refused⟩ | ⟨story, dictionary, hs, accepted⟩
  · rw [refused] at started
    rw [run_of_refused parsed started]
    refine ⟨fun _ _ => ⟨rfl, rfl⟩, fun s loaded => ?_⟩
    cases (refused _ _).symm.trans loaded
  · rw [accepted] at started
    rw [run_of_started parsed started]
    refine ⟨fun why loaded => ?_, fun s loaded => ?_⟩
    · cases (accepted _ _).symm.trans loaded
    · cases (accepted _ _).symm.trans loaded
      refine mirrors_of_companions (companions_start seeded) ⟨rfl, rfl, rfl⟩ ?_
      exact selfContained _ started

/-- The image of a story that prints a character, reads a line of three letters and quits. -/
def promptingImage : Memory :=
  let header := Memory.putBytes (Array.replicate 100 0) 0x00
    [3, 0, 0, 0, 0, 0, 0x00, 0x40, 0x00, 0x60, 0, 0, 0x00, 0x48, 0x00, 0x60]
  let code := header.putBytes 0x40 [0xE5, 0x7F, 0x3E, 0xE4, 0x5F, 0x50, 0x58, 0xBA]
  ((code.put 0x50 4).put 0x58 1).put 0x61 4

def promptingStory : Story :=
  { image := promptingImage, header := Header.ofMemory promptingImage }

/-- A configuration that gives a seed, as the text of a file. -/
def promptingSettings : String :=
  "[interpreter]\nseed = 7\n"

def promptingConfig : Config :=
  { interpreter := { seed := some 7 } }

def promptingDirectory : Directory where
  files := [("story", promptingImage.toList), ("settings", promptingSettings.toUTF8.toList)]
  resolve := some

/-- There is no screen, and no other configuration than the one that gives a seed. -/
def promptingSurroundings : Surroundings where
  deserialize text := if text = promptingSettings then some promptingConfig else none
  screen := { interactive := false, columns := fun _ => none, banner := id }
  entropy := .always 5

def promptingArguments : Arguments :=
  { story := "story", config := some "settings", seed := none }

def promptingState {H : Type} [Host H] (host : H) (entropy : Entropy) : Interpreter H :=
  loadedState promptingStory host promptingConfig.interpreter entropy
    { separators := [], entryLength := 4, entryCount := 0, entries := 0x64 }

def promptingStart : Interpreter Terminal :=
  promptingState (Terminal.opened {} promptingSurroundings.screen promptingDirectory)
    promptingSurroundings.entropy

theorem load_prompting {H : Type} [Host H] (host : H) (entropy : Entropy) :
    (Story.load promptingImage.toList.toArray >>= fun story =>
      Interpreter.load story host promptingConfig.interpreter entropy) =
      .ok (promptingState host entropy) := by
  have whole : promptingImage.toList.toArray = promptingImage := Array.toArray_toList
  have accepted : Story.load promptingImage = .ok promptingStory :=
    Story.load_of_le (by decide +kernel) (by decide +kernel)
  have read : Dictionary.read promptingStory.image promptingStory.header.dictionary.toNat =
      .ok { separators := [], entryLength := 4, entryCount := 0, entries := 0x64 } := by
    decide +kernel
  rw [whole, except_bind_of_ok accepted]
  exact load_of_read accepted nofun read

theorem configured_prompting :
    configuration? promptingSurroundings promptingArguments promptingDirectory =
      some promptingConfig := by
  decide +kernel

theorem start_prompting :
    start promptingSurroundings promptingArguments promptingDirectory = .ok promptingStart := by
  have stored : promptingDirectory.read? "story" = some promptingImage.toList := rfl
  have seeded : interpreterConfig promptingArguments promptingConfig =
      promptingConfig.interpreter := rfl
  rw [start_eq configured_prompting stored, seeded, load_prompting]
  rfl

/-- The instructions of a run are those that its steps fetch. -/
theorem selfContained_prompting {inst : Instruction} {values : List UInt16}
    (executed : Executed { promptingStart with host.input := Text.lines "look\r\nmore".toList }
      inst values) : SelfContained inst values := by
  generalize begun : { promptingStart with host.input := Text.lines "look\r\nmore".toList } = t
    at executed
  have fetches : ∀ (u : Interpreter Terminal) (opcode : Opcode),
      (result fetch u).toOption.map Instruction.opcode = some opcode → opcode ≠ .save →
        opcode ≠ .restore → opcode ≠ .random → Executes u inst values →
          SelfContained inst values := by
    rintro u opcode fetched ne_save ne_restore ne_random ⟨v, w, found, -⟩
    rw [result, found] at fetched
    obtain rfl := Option.some.inj fetched
    exact ⟨ne_save, ne_restore, fun random => absurd random ne_random⟩
  have prints : step t = .ok .continued (after step t) := by
    subst begun
    exact eq_ok_of_result (by decide +kernel)
  have reads : step (after step t) = .ok .continued (after step (after step t)) := by
    subst begun
    exact eq_ok_of_result (by decide +kernel)
  have quits : step (after step (after step t)) =
      .ok .quit (after step (after step (after step t))) := by
    subst begun
    exact eq_ok_of_result (by decide +kernel)
  have ended : (after step (after step (after step t))).state = .quit := by
    subst begun
    decide +kernel
  obtain ⟨u, passes, running, -, executes⟩ := executed
  rcases passes.of_step prints with rfl | passes
  · subst begun
    exact fetches _ .printChar (by decide +kernel) (by decide) (by decide) (by decide) executes
  rcases passes.of_step reads with rfl | passes
  · subst begun
    exact fetches _ .sread (by decide +kernel) (by decide) (by decide) (by decide) executes
  rcases passes.of_step quits with rfl | passes
  · subst begun
    exact fetches _ .quit (by decide +kernel) (by decide) (by decide) (by decide) executes
  · rw [passes.of_stopped (by rw [ended]; decide), ended] at running
    cases running

/-- The line that the story reads is written out whole; nothing is asked for the other one. -/
theorem mirrors_prompting :
    let exit := run promptingSurroundings ["story", "--config", "settings"] promptingDirectory
      "look\r\nmore"
    ∃ s, scripted promptingImage.toList ["look", "more"] promptingConfig.interpreter (.always 0) =
        .ok s ∧
      Mirrors promptingSurroundings.screen {} exit ["look", "more"] s ∧
      exit.code = 0 ∧ exit.output = ">look\n" := by
  have parsed : parse ["story", "--config", "settings"] = .ok promptingArguments := by
    decide +kernel
  have seeded : (interpreterConfig promptingArguments promptingConfig).seed = some 7 := rfl
  have stored : promptingDirectory.read? "story" = some promptingImage.toList := rfl
  have lines : linesOf "look\r\nmore" = ["look", "more"] := by decide +kernel
  have mirrors := (mirrors_of_run (.always 0) parsed configured_prompting seeded stored
    fun s started inst values executed => by
      obtain rfl := Except.ok.inj (start_prompting.symm.trans started)
      exact selfContained_prompting executed).2
  rw [lines] at mirrors
  exact ⟨_, load_prompting _ _, mirrors _ (load_prompting _ _), by decide +kernel,
    by decide +kernel⟩

end CommandLine

end ZMachine
