import ZMachine.Proofs.Interpreter.Alike
import ZMachine.Proofs.Interpreter.LimitedRun

/-!
# Where the limit does not hold

Only `run` looks at the limit on instructions. A run does not count beyond it, and requests that
execute no instructions do not count at all (`kept_count_runFor`, `Detached.perform_of_idle`). A
routine that the host calls goes on as if there were no limit: interpreters that differ in their
limits alone (`Relimited`) execute it alike, so that the limit neither stops it nor is reported by
it (`unlimited_of_callRoutine`). Such a routine may count past the limit (`limitedStart_called`).
-/

namespace ZMachine.Interpreter

variable {H : Type} {s t u : Interpreter H} {limit : Nat} {other : Option Nat}

/-- The interpreters differ at most in the limit, which is `other` in the second one. -/
def Relimited (other : Option Nat) (s t : Interpreter H) : Prop :=
  t = { s with limit := other }

section Parts

variable {α : Type}

theorem relimited_onMachine (operation : MachineM α) :
    Alike (Relimited other) (onMachine operation : Play H α) (onMachine operation) := by
  rintro s _ rfl
  cases run : operation s.machine with
  | ok a m =>
    have other_run : operation ({ s with limit := other } : Interpreter H).machine = .ok a m := run
    rw [onMachine_of_ok run, onMachine_of_ok other_run]
    exact .ok rfl
  | error e m =>
    have other_run : operation ({ s with limit := other } : Interpreter H).machine = .error e m :=
      run
    rw [onMachine_of_error run, onMachine_of_error other_run]
    exact .error rfl

theorem relimited_modify {f : Interpreter H → Interpreter H}
    (blind : ∀ s, f { s with limit := other } = { f s with limit := other }) :
    Alike (Relimited other) (modify f : Play H Unit) (modify f) :=
  Alike.modify fun s t related => by
    rw [related]
    exact blind s

theorem relimited_get_bind {g : Interpreter H → Play H α}
    (blind : ∀ s, g { s with limit := other } = g s)
    (rest : ∀ s, Alike (Relimited other) (g s) (g s)) :
    Alike (Relimited other) (get >>= g) (get >>= g) := by
  rintro s _ rfl
  rw [get_bind, get_bind, blind]
  exact rest s s _ rfl

theorem relimited_onHost (operation : H → α × H) :
    Alike (Relimited other) (onHost operation) (onHost operation) := by
  rintro s _ rfl
  exact .ok rfl

theorem relimited_fetch :
    Alike (Relimited other) (fetch : Play H Instruction) (fetch : Play H Instruction) := by
  refine relimited_get_bind (fun _ => rfl) fun s => (relimited_onMachine _).bind fun inst => ?_
  refine (relimited_onMachine _).bind fun next => .ite (fun _ => .throw _) fun _ => ?_
  exact (relimited_modify fun _ => rfl).bind fun _ => .pure inst

end Parts

variable [Host H]

theorem congruence_relimited : Congruence (Relimited other : Interpreter H → Interpreter H → Prop)
    where
  refuse why := by
    rintro s _ rfl
    exact .error rfl
  selected := by
    rintro s _ rfl
    exact .ok rfl
  modifyStreams f := relimited_modify fun _ => rfl
  tell notice := relimited_modify fun _ => rfl
  inFrame _ := relimited_onMachine _
  change _ _ := relimited_onMachine _

theorem Composed.relimited {α : Type} {x : Play H α} (h : Composed x) :
    Alike (Relimited other) x x := by
  induction h with
  | pure a => exact .pure a
  | bind _ _ first rest => exact first.bind rest
  | refuse why => exact congruence_relimited.refuse why
  | failDivision =>
    rintro s _ rfl
    exact .error rfl
  | ask q => exact relimited_onMachine _
  | change c => exact relimited_onMachine _
  | tell notice => exact relimited_modify fun _ => rfl
  | readLine length => exact relimited_onHost _
  | selected => exact congruence_relimited.selected
  | selectStream stream table => exact congruence_relimited.selectStream stream table
  | roll range =>
    rintro s _ rfl
    exact .ok rfl
  | await text parse => exact relimited_modify fun _ => rfl
  | storeLine line text parse =>
    exact relimited_get_bind (fun _ => rfl) fun _ => relimited_onMachine _

theorem relimited_prepareHeader :
    Alike (Relimited other) (prepareHeader : Play H Unit) prepareHeader :=
  (relimited_onMachine _).bind fun _ =>
    relimited_get_bind (fun _ => rfl) fun _ => relimited_onMachine _

theorem relimited_restart : Alike (Relimited other) (restart : Play H Unit) restart := by
  refine (relimited_onMachine _).bind fun _ => relimited_prepareHeader.bind fun _ => ?_
  exact (relimited_modify fun _ => rfl).bind fun _ => relimited_modify fun _ => rfl

theorem relimited_branchIf (inst : Instruction) (condition : Bool) :
    Alike (Relimited other) (branchIf inst condition : Play H Outcome) (branchIf inst condition) :=
  (Composed.branchIf condition).relimited

theorem relimited_resume (snapshot : Snapshot) (unfinished : Option Instruction) :
    Alike (Relimited other) (resume snapshot unfinished : Play H Unit)
      (resume snapshot unfinished) := by
  have takingOver : Alike (Relimited other) (takeOver snapshot : Play H Unit)
      (takeOver snapshot) :=
    (relimited_onMachine _).bind fun _ => relimited_prepareHeader.bind fun _ =>
      relimited_modify fun _ => rfl
  have finishing (inst : Instruction) : Alike (Relimited other) (finishSave inst : Play H Unit)
      (finishSave inst) :=
    (relimited_modify fun _ => rfl).bind fun _ => (relimited_branchIf inst true).bind fun _ =>
      .pure ()
  refine takingOver.bind fun _ => ?_
  cases unfinished with
  | none =>
    cases snapshot.head.resume with
    | awaitingInput text parse => exact relimited_modify fun _ => rfl
    | atPc | saveInstruction => exact .pure ()
  | some inst =>
    refine (finishing inst).bind fun _ => ?_
    cases snapshot.head.resume with
    | awaitingInput text parse => exact relimited_modify fun _ => rfl
    | atPc | saveInstruction => exact .pure ()

theorem relimited_executeSave (inst : Instruction) :
    Alike (Relimited other) (executeSave inst : Play H Outcome) (executeSave inst) := by
  refine relimited_get_bind (fun _ => rfl) fun s => (relimited_onMachine _).bind fun bytes => ?_
  exact (relimited_onHost _).bind fun saved => relimited_branchIf inst saved

theorem relimited_executeRestore (inst : Instruction) :
    Alike (Relimited other) (executeRestore inst : Play H Outcome) (executeRestore inst) := by
  have restoring (bytes : List UInt8) : Alike (Relimited other)
      (restoreState bytes : Play H Unit) (restoreState bytes) :=
    (relimited_onMachine _).bind fun snapshot => (relimited_onMachine _).bind fun unfinished =>
      relimited_resume snapshot unfinished
  exact fun s t related => Matched.executeRestore (relimited_onHost _ s t related)
    (fun bytes s' t' _ related' => restoring bytes s' t' related') (relimited_branchIf inst false)
    fun _ _ related' => related'

/-- A step does not look at the limit. -/
theorem relimited_step : Alike (Relimited other) (step : Play H Outcome) step := by
  have executing (inst : Instruction) : Alike (Relimited other) (execute inst : Play H Outcome)
      (execute inst) := by
    refine (Composed.resolveAll inst.operands).relimited.bind fun values => ?_
    cases whole : wholesale inst.opcode with
    | false => exact (Composed.executeWith whole).relimited
    | true =>
      rw [executeWith]
      rcases eq_of_wholesale whole with op | op | op
      · rw [op]
        exact relimited_executeSave inst
      · rw [op]
        exact relimited_executeRestore inst
      · rw [op]
        exact relimited_restart.bind fun _ => .pure _
  refine relimited_fetch.bind fun inst => (executing inst).bind fun outcome => ?_
  dsimp only
  split
  · exact (relimited_modify fun _ => rfl).bind fun _ => .pure _
  · exact (Alike.pure ()).bind fun _ => .pure _

/-- Neither do the steps of a routine, however many it takes. -/
theorem relimited_runRoutine (depth fuel : Nat) :
    Alike (Relimited other) (runRoutine depth fuel : Play H (Option UInt16))
      (runRoutine depth fuel) := by
  induction fuel with
  | zero => exact .pure none
  | succ fuel ih =>
    refine relimited_step.bind fun outcome => ?_
    cases outcome with
    | returned value =>
      refine relimited_get_bind (fun _ => rfl) fun s => ?_
      split
      · exact .pure _
      · exact ih
    | quit => exact .pure _
    | waiting => exact congruence_relimited.refuse _
    | _ => exact ih

theorem relimited_callRoutine (packed : UInt16) (arguments : List UInt16) :
    Alike (Relimited other) (callRoutine packed arguments : Play H (Option UInt16))
      (callRoutine packed arguments) := by
  rw [callRoutine]
  split
  · exact .pure _
  · refine relimited_get_bind (fun _ => rfl) fun s => (relimited_onMachine _).bind fun _ => ?_
    exact relimited_runRoutine _ _

/-! ### Requests that respect the limit -/

/-- A step counts at most one instruction, whether or not it fails. -/
theorem kept_count_step :
    Kept (fun t => t.count ≤ s.count + 1 ∧ t.limit = s.limit) (fun _ => True) (step s) := by
  have detached := detached_of_count (H := H) fun count limit =>
    count ≤ s.count + 1 ∧ limit = s.limit
  have start : s.count ≤ s.count + 1 ∧ s.limit = s.limit := ⟨Nat.le_succ _, rfl⟩
  have fetching : Kept (fun t => t.count ≤ s.count + 1 ∧ t.limit = s.limit) (fun _ => True)
      (fetch s) := by
    rw [fetch, get_bind]
    refine (detached.onMachine _ s start).bind fun inst t decoded ht => ?_
    obtain ⟨-, rfl⟩ := ask_eq_ok.mp decoded
    refine (detached.onMachine _ _ ht).bind fun next t moved ht' => ?_
    obtain ⟨-, rfl⟩ := ask_eq_ok.mp moved
    split
    · exact ⟨start, fun _ => trivial⟩
    · exact ⟨Nat.le_refl _, rfl⟩
  refine fetching.bind fun inst t _ ht => (detached.execute inst t ht).bind fun outcome u _ hu => ?_
  dsimp only
  split
  · exact hu
  · exact hu

/-- By induction on the fuel: as long as a step is taken, fewer have been counted than the limit. -/
theorem kept_count_runFor {bound fuel : Nat} (limited : s.limit = some limit)
    (within : limit ≤ bound) (start : s.count ≤ bound) :
    Kept (fun t => t.count ≤ bound) (fun _ => True) (runFor fuel s) := by
  induction fuel generalizing s with
  | zero => exact start
  | succ fuel ih =>
    rw [runFor]
    split
    · cases more : s.exhausted with
      | some reached => exact ⟨start, fun _ => trivial⟩
      | none =>
        have below := (exhausted_eq_none limited).mp more
        have kept := kept_count_step (s := s)
        dsimp only
        cases stepped : step s with
        | ok outcome t =>
          obtain ⟨count, same⟩ := kept.state_of_ok stepped
          exact ih (same.trans limited) (by omega)
        | error e t =>
          have count := (kept.state_of_error stepped).1
          exact ⟨by omega, fun _ => trivial⟩
    · exact start

/-- A request that executes instructions otherwise than by single steps or by a routine that the
host calls counts at most up to the limit. A routine that the host calls is executed as if the limit
were another one, or none, and it does not fail because of the limit. -/
theorem unlimited_of_callRoutine (limited : s.limit = some limit) :
    (∀ request : Request H, request ≠ .step →
      (∀ packed arguments, request ≠ .callRoutine packed arguments) →
      (after request.perform s).count ≤ max s.count limit) ∧
    ∀ packed arguments,
      (∀ other, Matched (Relimited other) (Relimited other) (callRoutine packed arguments s)
        (callRoutine packed arguments { s with limit := other })) ∧
      ∀ n t, callRoutine packed arguments s ≠ .error (.instructionLimit n) t := by
  have detached := detached_of_count (H := H) fun count _ => count ≤ max s.count limit
  have start : s.count ≤ max s.count limit := Nat.le_max_left _ _
  refine ⟨fun request notStep notCall => ?_, fun packed arguments => ⟨fun other => ?_, ?_⟩⟩
  · cases request with
    | step => exact absurd rfl notStep
    | callRoutine packed arguments => exact absurd rfl (notCall packed arguments)
    | run =>
      have running : Kept (fun t => t.count ≤ max s.count limit) (fun _ => True) (run s) :=
        kept_count_runFor limited (Nat.le_max_right _ _) start
      have ran : Kept (fun t => t.count ≤ max s.count limit) (fun _ => True)
          (Request.run.perform s) := running.bind fun _ _ _ h => h
      exact inv_after_of_kept ran
    | _ => exact inv_after_of_kept (detached.perform_of_idle rfl s start)
  · exact relimited_callRoutine packed arguments s _ rfl
  · intro n t failed
    rcases counts_callRoutine packed arguments s _ t failed with ordinary | ⟨full, -⟩
    · cases ordinary
    · cases full

theorem limitedStart_unlimited :
    limitedStart.limit = some 1 ∧
      (after (Request.run (H := Scripted)).perform limitedStart).count ≤ 1 ∧
      Matched (Relimited none) (Relimited none) (callRoutine 0x28 [] limitedStart)
        (callRoutine 0x28 [] { limitedStart with limit := none }) := by
  have limited : limitedStart.limit = some 1 := rfl
  obtain ⟨requests, routines⟩ := unlimited_of_callRoutine limited
  exact ⟨limited, requests .run nofun nofun, (routines 0x28 []).1 none⟩

/-- The routine returns after two instructions, although there may be only one. -/
theorem limitedStart_called :
    Reachable limitedImage limitedStart ∧ limitedStart.limit = some 1 ∧ limitedStart.count = 0 ∧
      ∃ t, callRoutine 0x28 [] limitedStart = .ok (some 1) t ∧ t.count = 2 := by
  have reachable : Reachable limitedImage limitedStart :=
    reachable_of_read (by decide +kernel) (by decide +kernel) (by decide) (by decide +kernel)
  exact ⟨reachable, rfl, rfl, _, eq_ok_of_result (by decide +kernel), by decide +kernel⟩

end ZMachine.Interpreter
