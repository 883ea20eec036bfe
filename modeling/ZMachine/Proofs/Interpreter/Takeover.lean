import ZMachine.Proofs.Interpreter.Conclusion
import ZMachine.Proofs.Interpreter.Saving

/-!
# Steps that replace the frames

Two instructions do not work in the frames that they find: `restart` begins with new ones, and
`restore` takes over those of a game, if the host gives one with which the story can go on
(`Accepts`). A game that is not accepted is refused before anything has changed, so that any step
but these leaves the machine in one of the ways that `Concludes` knows.
-/

namespace ZMachine.Interpreter

variable {H : Type} [Host H] {inst : Instruction} {bytes : List UInt8} {game : Snapshot}
  {outcome : Outcome} {s t u : Interpreter H}

/-- The bytes are a saved game with which the story can go on. -/
def Accepts (bytes : List UInt8) (game : Snapshot) (m : Machine) : Prop :=
  Snapshot.ofBytes bytes m = .ok game ∧ ∃ unfinished, game.unfinished m = .ok unfinished

/-- The next instruction takes over a game from the host. -/
def TakesOver (game : Snapshot) (s : Interpreter H) : Prop :=
  ∃ inst t bytes, fetch s = .ok inst t ∧ inst.opcode = .restore ∧
    (Host.restore t.host).1 = some bytes ∧ Accepts bytes game t.machine

omit [Host H] in
theorem Accepts.unique {other : Snapshot} {m : Machine} (h : Accepts bytes game m)
    (h' : Accepts bytes other m) : game = other :=
  Except.ok.inj (h.1.symm.trans h'.1)

theorem TakesOver.unique {other : Snapshot} (h : TakesOver game s) (h' : TakesOver other s) :
    game = other := by
  obtain ⟨inst, t, bytes, fetched, -, given, accepts⟩ := h
  obtain ⟨inst', t', bytes', fetched', -, given', accepts'⟩ := h'
  obtain ⟨rfl, rfl⟩ := EStateM.Result.ok.inj (fetched.symm.trans fetched')
  obtain rfl := Option.some.inj (given.symm.trans given')
  exact accepts.unique accepts'

/-- The next instruction replaces all frames. -/
def Replaces (s : Interpreter H) : Prop :=
  (∃ inst t, fetch s = .ok inst t ∧ inst.opcode = .restart) ∨ ∃ game, TakesOver game s

/-- A game is refused before anything has been changed. -/
theorem restoreState_of_refused (refused : ∀ game, ¬ Accepts bytes game s.machine) :
    ∃ e, restoreState bytes s = .error e s := by
  rw [restoreState]
  cases read : Snapshot.ofBytes bytes s.machine with
  | error e => exact ⟨e, bind_of_error (ask_of_error read)⟩
  | ok game =>
    rw [bind_of_ok (ask_of_ok read)]
    cases found : game.unfinished s.machine with
    | error e => exact ⟨e, bind_of_error (ask_of_error found)⟩
    | ok unfinished => exact absurd ⟨read, unfinished, found⟩ (refused game)

theorem restoreState_of_accepts (accepts : Accepts bytes game s.machine) :
    ∃ unfinished, restoreState bytes s = resume game unfinished s := by
  obtain ⟨read, unfinished, found⟩ := accepts
  refine ⟨unfinished, ?_⟩
  rw [restoreState, bind_of_ok (ask_of_ok read), bind_of_ok (ask_of_ok found)]

/-- Without a game that is accepted, `restore` takes the branch for a failure, or faults. -/
theorem executeRestore_of_refused
    (refused : ∀ bytes game, (Host.restore s.host).1 = some bytes →
      ¬ Accepts bytes game s.machine) :
    let mid := { s with host := (Host.restore s.host).2 }
    executeRestore inst s = branchIf inst false mid ∨
      executeRestore inst s = .error .fault mid := by
  have asked : onHost Host.restore s =
      .ok (Host.restore s.host).1 { s with host := (Host.restore s.host).2 } := rfl
  rw [executeRestore, bind_of_ok asked]
  cases given : (Host.restore s.host).1 with
  | none => exact Or.inl rfl
  | some bytes =>
    obtain ⟨e, failed⟩ := restoreState_of_refused
      (s := { s with host := (Host.restore s.host).2 }) fun game => refused bytes game given
    dsimp only
    rw [failed]
    cases e with
    | fault => exact Or.inr rfl
    | _ => exact Or.inl rfl

theorem execute_of_restore (fetched : fetch s = .ok inst t) (restore : inst.opcode = .restore) :
    (execute inst : Play H Outcome) = executeRestore inst := by
  obtain ⟨decoded, -⟩ := fetch_eq_ok.mp fetched
  rw [execute_of_op0 decoded (by rw [restore]; rfl), executeWith, restore]

/-- The conclusion of any step that does not replace the frames. -/
theorem concludes_of_not_replaces (keeps : ¬ Replaces s) (run : step s = .ok outcome u) :
    ∃ inst, Concludes inst (s.fetched inst).machine outcome u.machine := by
  obtain ⟨inst, t, fetched, -⟩ := bind_eq_ok.mp run
  have fetched_eq := (fetch_eq_ok.mp fetched).2.2.2
  refine ⟨inst, ?_⟩
  rw [← fetched_eq]
  have other : inst.opcode ≠ .restart := fun eq =>
    keeps (Or.inl ⟨inst, t, fetched, eq⟩)
  by_cases restores : inst.opcode = .restore
  · obtain ⟨v, executed, same⟩ := execute_of_step fetched run
    rw [execute_of_restore fetched restores] at executed
    rw [← same]
    have refused : ∀ bytes game, (Host.restore t.host).1 = some bytes →
        ¬ Accepts bytes game t.machine :=
      fun bytes game given accepts =>
        keeps (Or.inr ⟨game, inst, t, bytes, fetched, restores, given, accepts⟩)
    rcases executeRestore_of_refused refused with branches | faults
    · rw [branches] at executed
      exact (Ending.branchIf (K := H) false).concludes
        (s := { t with host := (Host.restore t.host).2 }) executed
    · rw [faults] at executed
      cases executed
  · exact concludes_of_step fetched restores other run

theorem state_of_step_quit (run : step s = .ok .quit t) : t.state = .quit := by
  obtain ⟨inst, mid, -, rest⟩ := bind_eq_ok.mp run
  obtain ⟨outcome, v, -, last⟩ := bind_eq_ok.mp rest
  split at last
  · cases last
    rfl
  · next other =>
    cases last
    exact absurd rfl other

end ZMachine.Interpreter
