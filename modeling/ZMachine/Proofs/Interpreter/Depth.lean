import ZMachine.Proofs.Interpreter.Isolation
import ZMachine.Proofs.Interpreter.Takeover

/-!
# How deep calls are nested

A routine is entered only while calls are nested less deep than `depthLimit`. The frames of a saved
game are taken as they are, however many there are. So the depth stays within the limit as long as
that of all games that have been taken over does (`depth_le_of_reachable`); a game with more frames
brings a story beyond the limit (`depthLimit_lt_of_deepGame`).
-/

namespace ZMachine

namespace Machine

variable {α : Type} {bound : Nat} {operation : MachineM α}

/-- The operation leaves calls nested no deeper than they may be, also when it fails. -/
def StaysWithin (bound : Nat) (operation : MachineM α) : Prop :=
  Keeps (fun m : Machine => m.frames.depth ≤ bound) (fun _ => True) operation

theorem Stays.within (stays : Stays operation) : StaysWithin bound operation := by
  intro m within
  refine Kept.imp (stays m m (.refl m)) fun t same => ?_
  rw [CallStack.depth, same.callers_eq]
  exact within

theorem staysWithin_callPacked {packed : UInt16} {arguments : List UInt16} {store : Option UInt8}
    (deep : depthLimit ≤ bound) : StaysWithin bound (callPacked packed arguments store) := by
  refine Keeps.query_bind (fun _ _ _ => trivial) fun m routine within _ => ?_
  rw [enter]
  split
  · exact ⟨within, fun _ => trivial⟩
  · next room =>
    split
    · exact ⟨within, fun _ => trivial⟩
    · split
      · exact ⟨within, fun _ => trivial⟩
      · exact Nat.le_trans (Nat.le_of_not_lt room) deep

theorem staysWithin_giveBack {value : UInt16} : StaysWithin bound (giveBack value) := by
  refine Keeps.bind (fun m within => ?_) fun frame => ?_
  · rw [leave]
    split
    · exact ⟨within, fun _ => trivial⟩
    · next caller callers eq =>
      rw [CallStack.depth, eq, List.length_cons] at within
      exact Nat.le_of_succ_le within
  · cases frame.store with
    | some number => exact (inFrame_writeVariable number value).stays.within
    | none => exact Keeps.pure ()

theorem staysWithin_keepingSessionBits {overwrite : MachineM Unit}
    (within : StaysWithin bound overwrite) : StaysWithin bound (keepingSessionBits overwrite) := by
  refine Keeps.get_bind fun m h => (within m h).bind fun _ t _ h => ?_
  exact (InFrame.bind (.poke _ _) fun _ => .poke _ _).stays.within t h

theorem staysWithin_apply {game : Snapshot} (shallow : game.frames.depth ≤ bound) :
    StaysWithin bound game.apply := by
  intro m within
  rw [Snapshot.apply]
  split
  · exact shallow
  · exact ⟨within, fun _ => trivial⟩

end Machine

namespace Interpreter

variable {H : Type} {α : Type} {bound : Nat} {s : Interpreter H} {games : List Snapshot}

theorem Change.staysWithin {operation : MachineM α} (c : Change operation)
    (deep : depthLimit ≤ bound) : Machine.StaysWithin bound operation := by
  refine c.elim (P := Machine.StaysWithin bound) (fun inFrame => inFrame.stays.within) ?_ ?_ ?_
  · exact fun _ _ _ => Machine.staysWithin_callPacked deep
  · exact fun _ => Machine.staysWithin_giveBack
  · exact fun _ => Keeps.modify fun _ within => within

/-- Calls are nested no deeper than they may be. -/
def Nested (bound : Nat) (s : Interpreter H) : Prop :=
  s.machine.frames.depth ≤ bound

theorem nested_onMachine {operation : MachineM α} (within : Machine.StaysWithin bound operation) :
    Maintains (Nested bound) (onMachine operation : Play H α) := by
  intro s h
  have kept := within s.machine h
  cases run : operation s.machine with
  | ok a m =>
    rw [onMachine_of_ok run]
    exact kept.state_of_ok run
  | error e m =>
    rw [onMachine_of_error run]
    exact ⟨kept.state_of_error run, fun _ => trivial⟩

theorem nested_ask {f : Machine → Except MachineError α} :
    Maintains (Nested bound) (ask f : Play H α) :=
  nested_onMachine (Machine.Stays.query f).within

theorem nested_selectStream {stream : Int} {table : Option UInt16} :
    Maintains (Nested bound) (selectStream stream table : Play H Unit) := by
  have transcript (on : Bool) : Maintains (Nested bound)
      (onMachine (Machine.setTranscript on) : Play H Unit) :=
    nested_onMachine (Machine.inFrame_setTranscript on).stays.within
  rw [selectStream]
  refine Keeps.ite (fun _ _ h => h) fun _ => Keeps.ite (fun _ _ h => h) fun _ => ?_
  refine Keeps.ite (fun _ => transcript true) fun _ => ?_
  refine Keeps.ite (fun _ => transcript false) fun _ => ?_
  refine Keeps.ite (fun _ => ?_) fun _ => Keeps.ite (fun _ _ h => h) fun _ => Keeps.pure ()
  cases table with
  | none => exact fun _ h => ⟨h, fun _ => trivial⟩
  | some table =>
    refine Keeps.bind (fun _ h => h) fun streams => Keeps.ite (fun _ _ h => ?_) fun _ => ?_
    · exact ⟨h, fun _ => trivial⟩
    · have within : Machine.StaysWithin bound (Machine.writeWord table.toNat 0) :=
        (Machine.inFrame_writeWord _ _).stays.within
      exact Keeps.bind (nested_onMachine within) fun _ _ h => h

theorem nested_fetch : Maintains (Nested bound) (fetch : Play H Instruction) := by
  refine Keeps.get_bind fun s h => Keeps.bind nested_ask (fun inst => ?_) s h
  refine Keeps.bind nested_ask fun _ => Keeps.ite (fun _ => Keeps.throw nofun) fun _ => ?_
  exact Keeps.bind (fun _ h => h) fun _ => Keeps.pure inst

variable [Host H]

theorem Composed.nested {x : Play H α} (h : Composed x) (deep : depthLimit ≤ bound) :
    Maintains (Nested bound) x := by
  induction h with
  | pure a => exact Keeps.pure a
  | bind _ _ ihx ihf => exact Keeps.bind ihx ihf
  | refuse why => exact fun _ h => ⟨h, fun _ => trivial⟩
  | failDivision => exact fun _ h => ⟨h, fun _ => trivial⟩
  | ask q => exact nested_ask
  | change c => exact nested_onMachine (c.staysWithin deep)
  | tell notice => exact fun _ h => h
  | readLine length => exact fun _ h => h
  | selected => exact fun _ h => h
  | selectStream stream table => exact nested_selectStream
  | roll range => exact fun _ h => h
  | await text parse => exact fun _ h => h
  | storeLine line text parse =>
    exact Keeps.get_bind fun s h =>
      nested_onMachine (Machine.inFrame_storeLine _ _ _ _).stays.within s h

theorem nested_prepareHeader : Maintains (Nested bound) (prepareHeader : Play H Unit) := by
  refine Keeps.bind nested_ask fun _ => Keeps.get_bind fun s h => ?_
  refine nested_onMachine (Machine.Stays.within ?_) s h
  refine (Machine.InFrame.bind (.poke _ _) fun _ => .bind (.poke _ _) fun _ => ?_).stays
  exact .bind (.poke _ _) fun _ => .bind (.poke _ _) fun _ => .poke _ _

theorem nested_restart : Maintains (Nested bound) (restart : Play H Unit) := by
  have starting : Machine.StaysWithin bound Machine.restart :=
    Machine.staysWithin_keepingSessionBits (Keeps.modify fun _ _ => Nat.zero_le _)
  refine Keeps.bind (nested_onMachine starting) fun _ => ?_
  exact Keeps.bind nested_prepareHeader fun _ => Keeps.bind (fun _ h => h) fun _ _ h => h

/-- Going on in a game leads no deeper than the game was. -/
theorem nested_resume {game : Snapshot} {unfinished : Option Instruction}
    (deep : depthLimit ≤ bound) (shallow : game.frames.depth ≤ bound) :
    Maintains (Nested bound) (resume game unfinished : Play H Unit) := by
  have taking : Machine.StaysWithin bound (Machine.keepingSessionBits game.apply) :=
    Machine.staysWithin_keepingSessionBits (Machine.staysWithin_apply shallow)
  have takingOver : Maintains (Nested bound) (takeOver game : Play H Unit) :=
    Keeps.bind (nested_onMachine taking) fun _ =>
      Keeps.bind nested_prepareHeader fun _ => fun _ h => h
  have finishing (inst) : Maintains (Nested bound) (finishSave inst : Play H Unit) :=
    Keeps.bind (fun _ h => h) fun _ =>
      Keeps.bind ((Composed.branchIf true).nested deep) fun _ => Keeps.pure ()
  refine Keeps.bind takingOver fun _ => ?_
  cases unfinished with
  | none => cases game.head.resume <;> exact fun _ h => h
  | some inst =>
    exact Keeps.bind (finishing inst) fun _ => by cases game.head.resume <;> exact fun _ h => h

theorem kept_restoreState {bytes : List UInt8} (deep : depthLimit ≤ bound)
    (shallow : ∀ game, Accepts bytes game s.machine → game.frames.depth ≤ bound)
    (h : Nested bound s) : Kept (Nested bound) (fun _ => True) (restoreState bytes s) := by
  by_cases accepted : ∃ game, Accepts bytes game s.machine
  · obtain ⟨game, accepts⟩ := accepted
    obtain ⟨unfinished, eq⟩ := restoreState_of_accepts accepts
    rw [eq]
    exact nested_resume deep (shallow game accepts) s h
  · obtain ⟨e, eq⟩ := restoreState_of_refused fun game accepts => accepted ⟨game, accepts⟩
    rw [eq]
    exact ⟨h, fun _ => trivial⟩

/-- A step leads deeper than the limit only by taking over a game. -/
theorem kept_step (deep : depthLimit ≤ bound)
    (shallow : ∀ game, TakesOver game s → game.frames.depth ≤ bound) (h : Nested bound s) :
    Kept (Nested bound) (fun _ => True) (step s) := by
  refine (nested_fetch s h).bind fun inst t fetched ht => Kept.bind ?_ fun outcome u _ hu => ?_
  · have branching : Maintains (Nested bound) (branchIf inst false : Play H Outcome) :=
      (Composed.branchIf false).nested deep
    by_cases restores : inst.opcode = .restore
    · rw [execute_of_restore fetched restores]
      refine kept_executeRestore ht (fun bytes given => kept_restoreState deep ?_ ht) branching
      exact fun game accepts => shallow game ⟨inst, t, bytes, fetched, restores, given, accepts⟩
    · refine Keeps.bind ((Composed.resolveAll inst.operands).nested deep) (fun values => ?_) t ht
      cases whole : wholesale inst.opcode with
      | false => exact (Composed.executeWith whole).nested deep
      | true =>
        rw [executeWith]
        rcases eq_of_wholesale whole with op | op | op
        · rw [op]
          refine Keeps.get_bind fun s h => Keeps.bind nested_ask (fun _ => ?_) s h
          exact Keeps.bind (fun _ h => h) fun _ => (Composed.branchIf _).nested deep
        · exact absurd op restores
        · rw [op]
          exact Keeps.bind nested_restart fun _ => Keeps.pure _
  · dsimp only
    split <;> exact hu

/-! ### Histories -/

/-- The states that operations lead to from the loading of an image on, with the games that have
been taken over on the way. -/
inductive History (image : Memory) : List Snapshot → Interpreter H → Prop
  | loaded {story : Story} {host : H} {config : InterpreterConfig} {entropy : Entropy}
      {s : Interpreter H} (hstory : Story.load image = .ok story)
      (h : load story host config entropy = .ok s) : History image [] s
  | step {games : List Snapshot} {s : Interpreter H} (h : History image games s)
      (own : ∀ game, ¬ TakesOver game s) : History image games (after step s)
  | restore {games : List Snapshot} {s : Interpreter H} {game : Snapshot}
      (h : History image games s) (takes : TakesOver game s) :
      History image (game :: games) (after step s)
  | enter {games : List Snapshot} {s : Interpreter H} (h : History image games s)
      (packed : UInt16) (arguments : List UInt16) :
      History image games (after (onMachine (Machine.callPacked packed arguments none)) s)
  | provideInput {games : List Snapshot} {s : Interpreter H} (h : History image games s)
      (line : String) : History image games (after (provideInput line) s)
  | restart {games : List Snapshot} {s : Interpreter H} (h : History image games s) :
      History image games (after restart s)
  | saveState {games : List Snapshot} {s : Interpreter H} (h : History image games s) :
      History image games (after saveState s)
  | refused {games : List Snapshot} {s : Interpreter H} {bytes : List UInt8}
      (h : History image games s) (refused : ∀ game, ¬ Accepts bytes game s.machine) :
      History image games (after (restoreState bytes) s)
  | accepted {games : List Snapshot} {s : Interpreter H} {bytes : List UInt8} {game : Snapshot}
      (h : History image games s) (accepts : Accepts bytes game s.machine) :
      History image (game :: games) (after (restoreState bytes) s)
  | changeHost {games : List Snapshot} {s : Interpreter H} (h : History image games s)
      (change : H → H) : History image games (after (tellHost change) s)

variable {image : Memory}

/-- A run, like a routine that has been called, is a sequence of steps. -/
theorem remembers_perform (request : Request H) :
    Maintains (fun s => ∃ games, History image games s) request.perform := by
  have stepping : Maintains (fun s : Interpreter H => ∃ games, History image games s) step := by
    refine fun s ⟨games, h⟩ => kept_of_after ?_
    by_cases takes : ∃ game, TakesOver game s
    · obtain ⟨game, takes⟩ := takes
      exact ⟨game :: games, h.restore takes⟩
    · exact ⟨games, h.step fun game own => takes ⟨game, own⟩⟩
  cases request with
  | step => exact Keeps.bind stepping fun _ => Keeps.pure ()
  | run => exact Keeps.bind (fun s h => keeps_runFor stepping s h) fun _ => Keeps.pure ()
  | provideInput line => exact fun s ⟨games, h⟩ => kept_of_after ⟨games, h.provideInput line⟩
  | callRoutine packed arguments =>
    refine Keeps.bind (keeps_callRoutine (fun s ⟨games, h⟩ => kept_of_after ?_) stepping)
      fun _ => Keeps.pure ()
    exact ⟨games, h.enter packed arguments⟩
  | restart => exact fun s ⟨games, h⟩ => kept_of_after ⟨games, h.restart⟩
  | saveState =>
    refine Keeps.bind (fun s ⟨games, h⟩ => kept_of_after ?_) fun _ => Keeps.pure ()
    exact ⟨games, h.saveState⟩
  | restoreState bytes =>
    refine fun s ⟨games, h⟩ => kept_of_after ?_
    by_cases accepted : ∃ game, Accepts bytes game s.machine
    · obtain ⟨game, accepts⟩ := accepted
      exact ⟨game :: games, h.accepted accepts⟩
    · exact ⟨games, h.refused fun game accepts => accepted ⟨game, accepts⟩⟩
  | changeHost change => exact fun s ⟨games, h⟩ => kept_of_after ⟨games, h.changeHost change⟩

theorem Reachable.exists_history (reachable : Reachable image s) :
    ∃ games, History image games s :=
  reachable.keeps (fun hstory h => ⟨[], .loaded hstory h⟩) remembers_perform

omit [Host H] in
theorem nested_saveState : Maintains (Nested bound) (saveState : Play H (List UInt8)) :=
  Keeps.get_bind fun s h => nested_ask s h

theorem nested_provideInput {line : String} (deep : depthLimit ≤ bound) :
    Maintains (Nested bound) (provideInput line : Play H Unit) := by
  refine Keeps.get_bind fun s h => ?_
  cases s.state with
  | waiting text parse =>
    refine Keeps.bind ((Composed.storeLine line text parse).nested deep) (fun _ => ?_) s h
    exact Keeps.modify fun _ h => h
  | running => exact h
  | quit => exact h

/-- By induction on the history: each operation alone leads no deeper, unless it takes over a game
that is. -/
theorem History.nested (history : History image games s) (deep : depthLimit ≤ bound)
    (shallow : ∀ game ∈ games, game.frames.depth ≤ bound) : Nested bound s := by
  induction history with
  | loaded hstory h =>
    rw [load_eq (Story.sound_of_load hstory).1] at h
    split at h
    · cases h
    · obtain ⟨dictionary, -, rfl⟩ := except_map_eq_ok.mp h
      exact Nat.zero_le _
  | step _ own ih =>
    refine inv_after_of_kept (kept_step deep (fun game takes => ?_) (ih shallow))
    exact absurd takes (own game)
  | restore _ takes ih =>
    obtain ⟨first, others⟩ := List.forall_mem_cons.mp shallow
    refine inv_after_of_kept (kept_step deep (fun game again => ?_) (ih others))
    exact again.unique takes ▸ first
  | enter _ packed arguments ih =>
    have entering : Machine.StaysWithin bound (Machine.callPacked packed arguments none) :=
      Machine.staysWithin_callPacked deep
    exact inv_after_of_kept (nested_onMachine entering _ (ih shallow))
  | provideInput _ line ih => exact inv_after_of_kept (nested_provideInput deep _ (ih shallow))
  | restart _ ih => exact inv_after_of_kept (nested_restart _ (ih shallow))
  | saveState _ ih => exact inv_after_of_kept (nested_saveState _ (ih shallow))
  | refused _ refused ih =>
    refine inv_after_of_kept (kept_restoreState deep (fun game accepts => ?_) (ih shallow))
    exact absurd accepts (refused game)
  | accepted _ accepts ih =>
    obtain ⟨first, others⟩ := List.forall_mem_cons.mp shallow
    refine inv_after_of_kept (kept_restoreState deep (fun game again => ?_) (ih others))
    exact again.unique accepts ▸ first
  | changeHost _ change ih => exact ih shallow

/-- Whatever games have been taken over on the way to a state, calls are nested no deeper there than
in one of them, or than `depthLimit`. There is no room in a game for more than 65535 frames. -/
theorem depth_le_of_reachable (reachable : Reachable image s) :
    s.machine.frames.depth < frameLimit ∧ (∃ games, History image games s) ∧
      ∀ games, History image games s → ∀ bound, depthLimit ≤ bound →
        (∀ game ∈ games, game.frames.depth ≤ bound) → s.machine.frames.depth ≤ bound := by
  obtain ⟨story, -, -, sound⟩ := reachable.sound
  exact ⟨sound.machine.frames.count_le, reachable.exists_history,
    fun games history bound deep shallow => history.nested deep shallow⟩

theorem after_perform_step (s : Interpreter H) :
    after (Request.step : Request H).perform s = after step s := by
  have eq : (Request.step : Request H).perform s = (step >>= fun _ => pure ()) s := rfl
  rw [after, after, eq]
  cases run : step s with
  | ok outcome t => rw [bind_of_ok run]; rfl
  | error e t => rw [bind_of_error run]

/-- The story has called its routine, and no game has been taken over. -/
theorem callingStart_depth_le :
    Reachable callingImage (after step callingStart) ∧
      History callingImage [] (after step callingStart) ∧
      (after step callingStart).machine.frames.depth ≤ depthLimit := by
  have loaded : Story.load callingImage = .ok callingStory :=
    Story.load_of_le (by decide +kernel) (by decide +kernel)
  have start : load callingStory ({} : Scripted) {} (.always 0) = .ok callingStart :=
    load_of_read loaded (by decide) (by decide +kernel)
  have reachable : Reachable callingImage (after step callingStart) :=
    after_perform_step callingStart ▸ .after (.loaded loaded start) .step
  have fetched : fetch callingStart = .ok callingRoutine (callingStart.fetched callingRoutine) :=
    fetch_eq_ok.mpr ⟨by decide +kernel, by decide +kernel, by decide +kernel, rfl⟩
  have own : ∀ game, ¬ TakesOver game callingStart := by
    rintro game ⟨inst, t, bytes, again, restores, -⟩
    cases fetched.symm.trans again
    cases restores
  have history : History callingImage [] (after step callingStart) :=
    .step (.loaded loaded start) own
  obtain ⟨-, -, bounded⟩ := depth_le_of_reachable reachable
  exact ⟨reachable, history,
    bounded [] history depthLimit (Nat.le_refl _) fun game mem => absurd mem List.not_mem_nil⟩

/-- A game of the small story with as many calls as desired. -/
def deepGame (n : Nat) : Snapshot where
  head := Snapshot.headFor smallStory 0x40 .atPc
  dynamicMemory := (smallImage.extract 0 0x48).toList
  frames := { innermost := .topLevel, callers := List.replicate n .topLevel }

theorem fits_deepGame {n : Nat} (room : n < frameLimit) : (deepGame n).Fits smallStory where
  length_eq := by
    dsimp only [deepGame]
    decide +kernel
  frames := by
    have all : ∀ f ∈ Frame.topLevel :: List.replicate n Frame.topLevel, f = Frame.topLevel :=
      List.forall_mem_cons.mpr ⟨rfl, fun f mem => List.eq_of_mem_replicate mem⟩
    refine ⟨fun f mem => ?_, fun f last => ?_, ?_⟩
    · rw [all f mem]
      exact CallStack.sound_topLevel.frames _ List.mem_cons_self
    · rw [all f (List.mem_of_getLast? last)]
      rfl
    · rw [CallStack.depth, deepGame, List.length_replicate]
      exact room
  pc_lt := by
    dsimp only [deepGame, Snapshot.headFor]
    decide
  pc_inside := by
    dsimp only [deepGame, Snapshot.headFor]
    decide +kernel

/-- All of them are taken over, however many calls a story could make. -/
theorem restoreState_deepGame {n : Nat} (room : n < frameLimit) :
    ∃ bytes t, (deepGame n).toBytes smallStory = .ok bytes ∧
      restoreState bytes smallStart = .ok () t ∧ t.machine.frames.depth = n := by
  obtain ⟨story, loaded, hs, sound⟩ := reachable_smallStart.sound
  obtain rfl := Except.ok.inj (load_smallImage.symm.trans loaded)
  have fits := fits_deepGame room
  obtain ⟨bytes, written, read⟩ := fits.ofBytes_toBytes hs rfl
  obtain ⟨m, inState, taken⟩ := takeOver_eq hs sound.machine fits
  have found : (deepGame n).unfinished smallStart.machine = .ok none := rfl
  refine ⟨bytes, tookOver smallStart m, written, ?_, ?_⟩
  · rw [restoreState, bind_of_ok (ask_of_ok (read _ sound.machine.plays)),
      bind_of_ok (ask_of_ok found), resume, bind_of_ok taken]
    rfl
  · show m.frames.depth = n
    rw [inState.frames_eq, CallStack.depth, deepGame, List.length_replicate]

theorem depthLimit_lt_of_deepGame :
    ∃ bytes t, (deepGame 1025).toBytes smallStory = .ok bytes ∧
      restoreState bytes smallStart = .ok () t ∧ Reachable smallImage t ∧
      depthLimit < t.machine.frames.depth := by
  obtain ⟨bytes, t, written, run, depth⟩ := restoreState_deepGame (n := 1025) (by decide)
  refine ⟨bytes, t, written, run, ?_, ?_⟩
  · have reached : after (Request.restoreState bytes).perform smallStart = t := by
      have eq : (Request.restoreState bytes).perform smallStart =
          restoreState bytes smallStart := rfl
      rw [after, eq, run]
    exact reached ▸ reachable_smallStart.after (.restoreState bytes)
  · rw [depth]
    decide

end Interpreter

end ZMachine
