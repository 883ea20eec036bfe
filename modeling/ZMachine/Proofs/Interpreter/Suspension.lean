import ZMachine.Proofs.Interpreter.Abreast
import ZMachine.Proofs.Interpreter.Progress

/-!
# Lines at hand and lines on demand

A host may have the lines of a game at hand, or have none, so that the story has to wait for each
line until it is provided. Both ways lead through the same game (`matched_run_play`). Where one
interpreter takes a line from its host, the other one waits and is given the line
(`matched_takeLine`), which is cut to its buffer only then; so a step of the first one is matched by
a step of the other one with what is supplied behind it (`matched_step`), and runs by induction on
their steps (`matched_of_level`).
-/

namespace ZMachine.Interpreter

variable {story : Story} {lines rest : List String} {line : String}
  {randoms : Random → Random → Prop} {s t u : Interpreter Scripted}

/-! ### A line that is there -/

theorem storeLine_cutLine (text parse : UInt16) (typeable : Machine.Typeable line.toList) :
    storeLine (cutLine line (s.machine.textCapacity text.toNat)) text parse s =
      storeLine line text parse s := by
  rw [storeLine, storeLine, get_bind, get_bind, onMachine, onMachine, cutLine, String.toList_ofList,
    Machine.storeLine_take typeable]

theorem takeLine_of_line {α : Type} {text parse : UInt16} (f : Outcome → Play Scripted α)
    (typeable : Machine.Typeable line.toList) (held : s.host.inputs = line :: rest) :
    (takeLine text parse >>= f) s = (do let _ ← storeLine line text parse; f .continued)
      { s with host := { s.host with inputs := rest } } := by
  have asked : ask (fun m => .ok (m.textCapacity text.toNat)) s =
      .ok (s.machine.textCapacity text.toNat) s := ask_of_ok rfl
  have read : onHost (fun host => Host.read host (s.machine.textCapacity text.toNat)) s =
      .ok (some (cutLine line (s.machine.textCapacity text.toNat)))
        { s with host := { s.host with inputs := rest } } := by
    simp only [onHost, Host.read, held]
  rw [takeLine, bind_assoc, bind_of_ok asked, bind_assoc, bind_of_ok read]
  simp only [bind_assoc, pure_bind]
  have whole := storeLine_cutLine (s := { s with host := { s.host with inputs := rest } })
    text parse typeable
  simp only [bind, EStateM.bind, whole]

theorem takeLine_of_none {text parse : UInt16} (held : s.host.inputs = []) :
    takeLine text parse s = .ok .waiting { s with state := .waiting text parse } := by
  have asked : ask (fun m => .ok (m.textCapacity text.toNat)) s =
      .ok (s.machine.textCapacity text.toNat) s := ask_of_ok rfl
  have read : onHost (fun host => Host.read host (s.machine.textCapacity text.toNat)) s =
      .ok none s := by
    simp only [onHost, Host.read, held]
  rw [takeLine, bind_of_ok asked, bind_of_ok read]
  rfl

/-! ### Steps -/

/-- Gives a story that waits the first of the lines, and leaves the others. -/
def supply (lines : List String) : Play Scripted (List String) := do
  let s ← get
  match lines, s.state with
  | line :: rest, .waiting _ _ => do
    provideInput line
    pure rest
  | _, _ => pure lines

theorem supply_of_waiting {text parse : UInt16} (waits : t.state = .waiting text parse) :
    supply (line :: rest) t =
      (do
        let _ ← storeLine line text parse
        modify fun s => { s with state := .running }
        pure rest : Play Scripted (List String)) t := by
  rw [supply, get_bind]
  simp only [waits]
  rw [provideInput, bind_assoc, get_bind]
  simp only [waits, bind_assoc]

/-- The lines that the host still has. -/
def linesLeft : Play Scripted (List String) :=
  fun s => .ok s.host.inputs s

/-- What a step does once its instruction has been executed. -/
def settle (outcome : Outcome) : Play Scripted Outcome := do
  if outcome = .quit then modify fun s => { s with state := .quit } else pure ()
  pure outcome

theorem step_eq :
    step = (do
      let inst ← fetch
      let outcome ← execute inst
      settle outcome : Play Scripted Outcome) :=
  rfl

theorem settle_of_ne (outcome : Outcome) (goesOn : outcome ≠ .quit) :
    settle outcome = pure outcome := by
  rw [settle, if_neg goesOn]

theorem alike_settle (outcome : Outcome) :
    Alike (Abreast story lines randoms) (settle outcome) (settle outcome) := by
  rw [settle]
  split
  · exact (Alike.modify fun _ _ h => { h with states := starved_quit }).bind fun _ => .pure _
  · exact (Alike.pure ()).bind fun _ => .pure _

theorem supply_eq (h : Abreast story lines randoms s t) : supply lines t = .ok lines t := by
  rw [supply, get_bind]
  cases lines with
  | nil => rfl
  | cons line rest =>
    cases state : t.state with
    | running | quit => rfl
    | waiting text parse => cases h.states.none_left text parse (h.states.eq ▸ state)

/-- Two interpreters between steps; the first one has the lines that the other one has to be
given. -/
def Level (story : Story) (s t : Interpreter Scripted) : Prop :=
  Abreast story s.host.inputs SeedKept s t

theorem matched_ending (h : Abreast story lines SeedKept s t) :
    Matched (Level story) SameGame (linesLeft s) (supply lines t) := by
  obtain rfl := h.hosts.lines_eq
  rw [supply_eq h]
  exact .ok h

/-- The first story takes its line and goes on; the other one waits, is given the line, and goes
on. -/
theorem matched_takeLine {text parse : UInt16}
    (h : Twins (Unread story (line :: rest)) SeedKept (fun state _ => state = .running) s t) :
    Matched (Level story) SameGame
      ((do
        let outcome ← takeLine text parse
        let _ ← settle outcome
        linesLeft) s)
      ((do
        let outcome ← takeLine text parse
        let _ ← settle outcome
        supply (line :: rest)) t) := by
  have typeable : Machine.Typeable line.toList := h.hosts.typeable line (List.mem_cons_self ..)
  have without : t.host.inputs = [] := by rw [h.hosts.other_eq]
  -- The run states differ while one story stores its line and the other one waits to be given it.
  have stored : Twins (Unread story rest) SeedKept (fun state _ => state = .running)
      { s with host := { s.host with inputs := rest } }
      { t with state := .waiting text parse } := by
    refine { h with hosts := ⟨rfl, h.hosts.other_eq, ?_, h.hosts.noneWaits⟩, states := h.states }
    exact fun other member => h.hosts.typeable other (List.mem_cons_of_mem _ member)
  rw [takeLine_of_line _ typeable h.hosts.lines_eq, bind_of_ok (takeLine_of_none without),
    settle_of_ne .continued nofun, settle_of_ne .waiting nofun, pure_bind, pure_bind,
    supply_of_waiting rfl]
  refine (matched_of_alike (alike_storeLine line text parse) stored).bind fun _ s' t' _ h' => ?_
  have lines_eq : s'.host.inputs = rest := h'.hosts.lines_eq
  have running : s'.state = .running := h'.states
  have level : Level story s' { t' with state := .running } := by
    rw [Level, lines_eq]
    exact { h' with states := ⟨running.symm, fun _ _ waits => nomatch running.symm.trans waits⟩ }
  show Matched _ _ (.ok s'.host.inputs s') (.ok rest { t' with state := .running })
  rw [lines_eq]
  exact .ok level

/-- A step, with what is supplied behind it in case the story waits. -/
theorem matched_step (hs : story.Sound) (sound : s.Sound story) (running : s.state = .running)
    (h : Abreast story lines SameSeed s t) :
    Matched (Level story) SameGame ((do let _ ← step; linesLeft) s)
      ((do let _ ← step; supply lines) t) := by
  simp only [step_eq, bind_assoc]
  refine (matched_of_alike alike_fetch h).bind fun inst s' t' fetched h' => ?_
  by_cases reads : inst.opcode = .sread ∧ lines ≠ []
  · obtain ⟨read, some⟩ := reads
    obtain ⟨line, rest, rfl⟩ := List.exists_cons_of_ne_nil some
    have still : s'.state = .running := by
      obtain ⟨-, -, -, rfl⟩ := fetch_eq_ok.mp fetched
      exact running
    have both : Twins (Unread story (line :: rest)) SeedKept (fun state _ => state = .running)
        s' t' := { h'.seedKept with states := still }
    rw [execute_of_read read]
    simp only [bind_assoc]
    exact (matched_of_alike alike_buffers both).bind fun _ _ _ _ found => matched_takeLine found
  · have unread : inst.opcode = .sread → lines = [] := fun read =>
      Decidable.byContradiction fun some => reads ⟨read, some⟩
    refine (matched_execute hs sound fetched h' unread).bind fun outcome _ _ _ executed => ?_
    refine (matched_of_alike (alike_settle outcome) executed).bind fun _ _ _ _ settled => ?_
    exact matched_ending settled

/-! ### Runs -/

/-- Runs, and gives the story the next line whenever it waits for one. -/
def play : List String → Play Scripted (Option RunState)
  | [] => run
  | line :: rest => do
    match ← run with
    | some (.waiting _ _) => do
      provideInput line
      play rest
    | state => pure state

theorem supply_play (lines : List String) :
    (do let rest ← supply lines; play rest) = play lines := by
  funext t
  cases lines with
  | nil => rfl
  | cons line rest =>
    cases state : t.state with
    | running | quit =>
      have supplied : supply (line :: rest) t = .ok (line :: rest) t := by
        rw [supply, get_bind]
        simp only [state]
        rfl
      exact bind_of_ok supplied
    | waiting text parse =>
      have stopped : run t = .ok (some (.waiting text parse)) t := by
        rw [run_of_stopped (by rw [state]; nofun), state]
      rw [play, bind_of_ok stopped, supply, bind_assoc, get_bind]
      simp only [state, bind_assoc, pure_bind]

/-- As `run_of_running`, with a line for each time the story waits. -/
theorem play_of_running (running : t.state = .running) (more : t.exhausted = none) :
    play lines t = (do let rest ← (do let _ ← step; supply lines); play rest) t := by
  rw [bind_assoc, supply_play]
  cases lines with
  | nil => exact run_of_running running more
  | cons line rest =>
    rw [play, ← bind_assoc]
    simp only [bind, EStateM.bind, run_of_running running more]

theorem play_of_error {e : MachineError} (failed : run t = .error e u) :
    play lines t = .error e u := by
  cases lines with
  | nil => exact failed
  | cons line rest => exact bind_of_error failed

theorem play_of_stopped (stopped : t.state ≠ .running)
    (starved : ∀ text parse, t.state = .waiting text parse → lines = []) :
    play lines t = .ok (some t.state) t := by
  cases lines with
  | nil => exact run_of_stopped stopped
  | cons line rest =>
    rw [play, bind_of_ok (run_of_stopped stopped)]
    cases state : t.state with
    | running | quit => rfl
    | waiting text parse => cases starved text parse state

/-- By induction on the fuel, of which each step uses up one unit. -/
theorem matched_of_level {bound : Nat} (hs : story.Sound) (fuel : s.fuel = bound)
    (sound : s.Sound story) (level : Level story s t)
    (predictable : ∀ u, Passes s u → u.random.mode = .predictable) :
    Matched SameGame SameGame (run s) (play s.host.inputs t) := by
  induction bound generalizing s t with
  | zero => cases fuel
  | succ bound ih =>
    by_cases running : s.state = .running
    · have running' : t.state = .running := level.states.eq.trans running
      have exhausted_eq : t.exhausted = s.exhausted := by
        rw [exhausted, exhausted, level.limit_eq, level.count_eq]
      cases more : s.exhausted with
      | some limit =>
        rw [run_of_exhausted running more,
          play_of_error (run_of_exhausted running' (exhausted_eq.trans more))]
        exact .error level.sameGame
      | none =>
        have abreast : Abreast story s.host.inputs SameSeed s t :=
          { level with randoms := level.randoms (predictable s (.here s)) }
        rw [run_of_running running more, play_of_running running' (exhausted_eq.trans more)]
        -- The first story need not be supplied with what its host has.
        have left : (do let _ ← step; run : Play Scripted (Option RunState)) =
            (do let _ ← (do let _ ← step; linesLeft); run) := by
          rw [bind_assoc]
          rfl
        rw [left]
        refine (matched_step hs sound running abreast).bind fun rest s' t' ran level' => ?_
        obtain ⟨outcome, mid, stepped, found⟩ := bind_eq_ok.mp ran
        cases found
        have less := fuel_of_step more stepped
        refine ih (by omega) ((safe_step hs s sound).state_of_ok stepped) level' fun u passes => ?_
        exact predictable u (.step running more stepped passes)
    · rw [run_of_stopped running, play_of_stopped (level.states.eq ▸ running)
        (level.states.eq ▸ level.states.none_left), level.states.eq]
      exact .ok level.sameGame

/-- A game from its start, with the lines at hand and with the same lines on demand. The
configuration may limit the number of instructions, so this holds of every point that the game comes
to. Random numbers can be predicted for as long as it goes on, and no saved game that waits for a
line has been left with the host: once restored, it would wait beside the lines at hand. -/
theorem matched_run_play (host : Scripted) (entropy' : Entropy) {image : Memory}
    {config : InterpreterConfig} {seed : UInt32} {entropy : Entropy}
    (accepted : Story.load image = .ok story) (seeded : config.seed = some seed)
    (noneWaits : NoneWaits story host.saved)
    (typeable : ∀ line ∈ lines, Machine.Typeable line.toList)
    (loaded : load story { host with inputs := lines } config entropy = .ok s)
    (predictable : ∀ u, Passes s u → u.random.mode = .predictable) :
    ∃ t, load story { host with inputs := [] } config entropy' = .ok t ∧
      Matched SameGame SameGame (run s) (play lines t) := by
  have hs := (Story.sound_of_load accepted).1
  have sound := sound_of_load hs loaded
  rw [load_eq hs] at loaded ⊢
  split at loaded
  · cases loaded
  · next supported =>
    obtain ⟨dictionary, read, rfl⟩ := except_map_eq_ok.mp loaded
    rw [if_neg supported, read]
    refine ⟨_, rfl, ?_⟩
    refine matched_of_level hs rfl sound ?_ predictable
    exact {
      machine_eq := rfl
      dictionary_eq := rfl
      streams_eq := rfl
      currentPc_eq := rfl
      count_eq := rfl
      limit_eq := rfl
      hosts := ⟨rfl, rfl, typeable, noneWaits⟩
      randoms := by
        intro _
        simp only [SameSeed, loadedState, unprepared, initialRandom, seeded]
        rfl
      states := starved_running }

/-- The image of a story that reads a line of three letters and quits. -/
def askingImage : Memory :=
  let header := Memory.putBytes (Array.replicate 100 0) 0x00
    [3, 0, 0, 0, 0, 0, 0x00, 0x40, 0x00, 0x60, 0, 0, 0x00, 0x48, 0x00, 0x60]
  let code := header.putBytes 0x40 [0xE4, 0x5F, 0x50, 0x58, 0xBA]
  ((code.put 0x50 4).put 0x58 1).put 0x61 4

def askingStory : Story :=
  { image := askingImage, header := Header.ofMemory askingImage }

def askingStart : Interpreter Scripted :=
  loadedState askingStory { inputs := ["look"] } { seed := some 1 } (.always 0)
    { separators := [], entryLength := 4, entryCount := 0, entries := 0x64 }

theorem askingStart_matched :
    ∃ t, load askingStory ({} : Scripted) { seed := some 1 } (.always 2) = .ok t ∧
      Matched SameGame SameGame (run askingStart) (play ["look"] t) := by
  have accepted : Story.load askingImage = .ok askingStory :=
    Story.load_of_le (by decide +kernel) (by decide +kernel)
  have loaded : load askingStory ({ inputs := ["look"] } : Scripted) { seed := some 1 }
      (.always 0) = .ok askingStart := by
    have read : Dictionary.read askingStory.image askingStory.header.dictionary.toNat =
        .ok { separators := [], entryLength := 4, entryCount := 0, entries := 0x64 } := by
      decide +kernel
    rw [load_eq (Story.sound_of_load accepted).1, if_neg (by decide), read]
    rfl
  have predictable : ∀ u, Passes askingStart u → u.random.mode = .predictable := by
    have reads : step askingStart = .ok .continued (after step askingStart) :=
      eq_ok_of_result (by decide +kernel)
    have quits : step (after step askingStart) = .ok .quit (after step (after step askingStart)) :=
      eq_ok_of_result (by decide +kernel)
    have ended : (after step (after step askingStart)).state = .quit := by decide +kernel
    intro u passes
    rcases passes.of_step reads with eq | passes
    · rw [eq]
      rfl
    rcases passes.of_step quits with eq | passes
    · rw [eq]
      decide +kernel
    · rw [passes.of_stopped (by rw [ended]; nofun)]
      decide +kernel
  have typeable : ∀ line ∈ ["look"], Machine.Typeable line.toList := by decide +kernel
  have seeded : ({ seed := some 1 } : InterpreterConfig).seed = some 1 := rfl
  have noneWaits : NoneWaits askingStory ({} : Scripted).saved := nofun
  exact matched_run_play {} (.always 2) accepted seeded noneWaits typeable loaded predictable

end ZMachine.Interpreter
