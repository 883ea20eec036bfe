import ZMachine.Proofs.Interpreter.Safety

/-!
# Runs step by step

A step counts one instruction and leaves the limit alone (`counted_of_step`). So the fuel of a run
lasts until the run comes back by itself: from a state that can take a step, a run is that step and
the run from there (`run_of_running`), and a run always says how it has ended (`run_ne_none`).
-/

namespace ZMachine.Interpreter

variable {H : Type} {s t u : Interpreter H}

/-- Executing an instruction, once it has been fetched, has no part in the count and the limit. -/
theorem detached_of_count (P : Nat → Option Nat → Prop) :
    Detached (fun s : Interpreter H => P s.count s.limit) where
  setMachine _ h := h
  setHost _ h := h
  roll _ h := h
  setState _ h := h
  setCurrentPc _ h := h
  closeTables h := h
  restartStreams h := h
  selectStream := maintains_selectStream_of_streams (fun _ h => h) fun _ h => h

variable [Host H] {outcome : Outcome}

theorem counted_of_step (run : step s = .ok outcome t) :
    s.count + 1 < countLimit ∧ t.count = s.count + 1 ∧ t.limit = s.limit := by
  obtain ⟨inst, mid, fetched, rest⟩ := bind_eq_ok.mp run
  obtain ⟨outcome', v, executed, last⟩ := bind_eq_ok.mp rest
  obtain ⟨-, -, room, rfl⟩ := fetch_eq_ok.mp fetched
  have detached := detached_of_count (H := H) fun count limit =>
    count = s.count + 1 ∧ limit = s.limit
  have counted := (detached.execute inst (s.fetched inst) ⟨rfl, rfl⟩).state_of_ok executed
  refine ⟨room, ?_⟩
  split at last
  · cases last
    exact counted
  · cases last
    exact counted

/-- A step that a run takes uses up some fuel, and leaves enough for the rest. -/
theorem fuel_of_step (more : s.exhausted = none) (run : step s = .ok outcome t) :
    s.fuel = t.fuel + 1 := by
  obtain ⟨room, count, limit⟩ := counted_of_step run
  have below : s.count < s.limit.getD countLimit := by
    cases limited : s.limit with
    | none =>
      rw [Option.getD_none]
      omega
    | some bound =>
      rw [exhausted, limited, Option.filter_some_eq_none] at more
      simpa using more
  rw [fuel, fuel, limit, count]
  omega

theorem run_of_stopped (stopped : s.state ≠ .running) : run s = .ok (some s.state) s := by
  rw [run, fuel, runFor, if_neg stopped]

theorem run_of_exhausted {bound : Nat} (running : s.state = .running)
    (reached : s.exhausted = some bound) : run s = .error (.instructionLimit bound) s := by
  rw [run, fuel, runFor, if_pos running, reached]

/-- A run that can take a step takes it, and goes on from there. -/
theorem run_of_running (running : s.state = .running) (more : s.exhausted = none) :
    run s = (do let _ ← step; run) s := by
  cases stepped : step s with
  | ok outcome t =>
    rw [bind_of_ok stepped, run, fuel_of_step more stepped, runFor, if_pos running, more]
    simp only [stepped]
    rfl
  | error e t =>
    rw [bind_of_error stepped, run, fuel, runFor, if_pos running, more]
    simp only [stepped]

/-- The fuel of a run does not give out before the run comes back. -/
theorem run_ne_none {bound : Nat} (fuel : s.fuel = bound) : run s ≠ .ok none t := by
  induction bound generalizing s with
  | zero => cases fuel
  | succ bound ih =>
    intro gaveOut
    by_cases running : s.state = .running
    · cases more : s.exhausted with
      | some limit =>
        rw [run_of_exhausted running more] at gaveOut
        cases gaveOut
      | none =>
        rw [run_of_running running more] at gaveOut
        obtain ⟨outcome, mid, stepped, later⟩ := bind_eq_ok.mp gaveOut
        have less := fuel_of_step more stepped
        exact ih (by omega) later
    · rw [run_of_stopped running] at gaveOut
      cases gaveOut

/-- A run that comes back has come to a stop. -/
theorem stopped_of_run {bound : Nat} {state : RunState} (fuel : s.fuel = bound)
    (ran : run s = .ok (some state) t) : state ≠ .running := by
  induction bound generalizing s with
  | zero => cases fuel
  | succ bound ih =>
    by_cases running : s.state = .running
    · cases more : s.exhausted with
      | some limit =>
        rw [run_of_exhausted running more] at ran
        cases ran
      | none =>
        rw [run_of_running running more] at ran
        obtain ⟨outcome, mid, stepped, later⟩ := bind_eq_ok.mp ran
        have less := fuel_of_step more stepped
        exact ih (by omega) later
    · rw [run_of_stopped running] at ran
      cases ran
      exact running

/-- A run that starts in the first state comes through the second one. -/
inductive Passes : Interpreter H → Interpreter H → Prop
  | here (s : Interpreter H) : Passes s s
  | step {s t u : Interpreter H} {outcome : Outcome} (running : s.state = .running)
      (more : s.exhausted = none) (stepped : step s = .ok outcome t) (later : Passes t u) :
      Passes s u

theorem Passes.of_step (passes : Passes s u) (stepped : Interpreter.step s = .ok outcome t) :
    u = s ∨ Passes t u := by
  cases passes with
  | here => exact Or.inl rfl
  | step _ _ stepped' later =>
    cases stepped.symm.trans stepped'
    exact Or.inr later

theorem Passes.of_stopped (passes : Passes s u) (stopped : s.state ≠ .running) : u = s := by
  cases passes with
  | here => rfl
  | step running => exact absurd running stopped

end ZMachine.Interpreter
