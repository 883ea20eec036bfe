import ZMachine.Proofs.Interpreter.Composition
import ZMachine.Proofs.Interpreter.Safety

/-!
# How an instruction leaves the machine

Whatever an instruction but `restore` and `restart` has done in the running routine, its outcome
says how it has left the machine then (`Concludes`): where it was, at another place, in a routine it
has called, or back in the caller. This is what is known of a step without looking at what the
instruction is for.
-/

namespace ZMachine.Interpreter

/-- The machine that an instruction has come to, by its outcome; `m` is the machine once the
instruction has been fetched. -/
inductive Concludes (inst : Instruction) (m : Machine) : Outcome → Machine → Prop
  | goesOn {m' : Machine} (same : m.SameRoutine m') : Concludes inst m .continued m'
  | waits {m' : Machine} (same : m.SameRoutine m') : Concludes inst m .waiting m'
  | quits {m' : Machine} (same : m.SameRoutine m') : Concludes inst m .quit m'
  | jumps {mid m' : Machine} (same : m.SameRoutine mid) (offset : Int)
      (run : Machine.jump offset mid = .ok () m') (steers : Steers inst offset) :
      Concludes inst m .branched m'
  | calls {mid m' : Machine} (same : m.SameRoutine mid) (isCall : inst.opcode = .call)
      (packed : UInt16) (arguments : List UInt16)
      (run : Machine.callPacked packed arguments inst.store mid = .ok () m') :
      Concludes inst m .called m'
  | returns {mid m' : Machine} (same : m.SameRoutine mid) (value : UInt16)
      (run : Machine.giveBack value mid = .ok () m') : Concludes inst m (.returned value) m'

/-- What is done in the running routine first makes no difference. -/
theorem Concludes.of_same {inst : Instruction} {m n m' : Machine} {outcome : Outcome}
    (same : m.SameRoutine n) (h : Concludes inst n outcome m') : Concludes inst m outcome m' := by
  cases h with
  | goesOn later => exact .goesOn (same.trans later)
  | waits later => exact .waits (same.trans later)
  | quits later => exact .quits (same.trans later)
  | jumps later offset run steers => exact .jumps (same.trans later) offset run steers
  | calls later isCall packed arguments run =>
    exact .calls (same.trans later) isCall packed arguments run
  | returns later value run => exact .returns (same.trans later) value run

variable {H K : Type} {inst : Instruction} {s t u : Interpreter H} {outcome : Outcome}

theorem sameRoutine_of_onMachine {α : Type} {operation : MachineM α} {a : α}
    (stays : Machine.Stays operation) (run : onMachine operation s = .ok a t) :
    s.machine.SameRoutine t.machine := by
  obtain ⟨m, done, rfl⟩ := onMachine_eq_ok.mp run
  exact stays.of_ok done

theorem sameRoutine_of_storeLine {line : String} {text parse : UInt16} {tokens : List Token}
    (run : storeLine line text parse s = .ok tokens t) : s.machine.SameRoutine t.machine :=
  sameRoutine_of_onMachine (Machine.inFrame_storeLine _ _ _ _).stays run

theorem sameRoutine_of_selectStream {stream : Int} {table : Option UInt16}
    (run : selectStream stream table s = .ok () t) : s.machine.SameRoutine t.machine := by
  simp only [selectStream] at run
  split at run
  · cases run
    exact .refl _
  split at run
  · cases run
    exact .refl _
  split at run
  · exact sameRoutine_of_onMachine (Machine.inFrame_setTranscript true).stays run
  split at run
  · exact sameRoutine_of_onMachine (Machine.inFrame_setTranscript false).stays run
  split at run
  · cases table with
    | none => cases run
    | some table =>
      obtain ⟨streams, mid, chosen, run⟩ := bind_eq_ok.mp run
      cases chosen
      split at run
      · cases run
      · obtain ⟨⟨⟩, opened, written, run⟩ := bind_eq_ok.mp run
        have same := sameRoutine_of_onMachine (Machine.inFrame_writeWord _ _).stays written
        cases run
        exact same
  split at run
  · cases run
    exact .refl _
  · cases run
    exact .refl _

variable [Host H] [Host K]

theorem Works.sameRoutine {α : Type} {x : Play H α} {y : Play K α} {a : α} (h : Works x y)
    (run : x s = .ok a t) : s.machine.SameRoutine t.machine := by
  induction h generalizing s t with
  | pure b =>
    cases run
    exact .refl _
  | bind _ _ first rest =>
    obtain ⟨b, mid, ran, run⟩ := bind_eq_ok.mp run
    exact (first ran).trans (rest b run)
  | refuse why => cases run
  | ask q =>
    obtain ⟨-, rfl⟩ := ask_eq_ok.mp run
    exact .refl _
  | change _ stays => exact sameRoutine_of_onMachine stays run
  | tell notice =>
    cases run
    exact .refl _
  | selected =>
    cases run
    exact .refl _
  | selectStream stream table => exact sameRoutine_of_selectStream run

theorem Ending.concludes {x : Play H Outcome} {y : Play K Outcome} (h : Ending inst x y)
    (run : x s = .ok outcome t) : Concludes inst s.machine outcome t.machine := by
  induction h generalizing s with
  | bind first _ rest =>
    obtain ⟨b, mid, ran, run⟩ := bind_eq_ok.mp run
    exact (rest b run).of_same (first.sameRoutine ran)
  | goOn =>
    cases run
    exact .goesOn (.refl _)
  | quit =>
    cases run
    exact .quits (.refl _)
  | failDivision => cases run
  | jumpBy offset steers =>
    obtain ⟨⟨⟩, mid, ran, run⟩ := bind_eq_ok.mp run
    obtain ⟨m, done, rfl⟩ := onMachine_eq_ok.mp ran
    cases run
    exact .jumps (.refl _) offset done steers
  | returnValue value =>
    obtain ⟨⟨⟩, mid, ran, run⟩ := bind_eq_ok.mp run
    obtain ⟨m, done, rfl⟩ := onMachine_eq_ok.mp ran
    cases run
    exact .returns (.refl _) value done
  | callPacked isCall packed arguments =>
    obtain ⟨⟨⟩, mid, ran, run⟩ := bind_eq_ok.mp run
    obtain ⟨m, done, rfl⟩ := onMachine_eq_ok.mp ran
    cases run
    exact .calls (.refl _) isCall packed arguments done

theorem concludes_of_executeRead {values : List UInt16}
    (run : executeRead inst values s = .ok outcome t) :
    Concludes inst s.machine outcome t.machine := by
  obtain ⟨text, s₁, given, showing⟩ := bind_eq_ok.mp run
  obtain ⟨⟨⟩, s₂, shown, asking⟩ := bind_eq_ok.mp showing
  have same : s.machine.SameRoutine s₂.machine :=
    ((Works.operand (K := H) 0).sameRoutine given).trans
      ((Works.showStatus (K := H)).sameRoutine shown)
  obtain ⟨length, s₃, asked, reading⟩ := bind_eq_ok.mp asking
  obtain ⟨line, s₄, read, last⟩ := bind_eq_ok.mp reading
  obtain ⟨-, rfl⟩ := ask_eq_ok.mp asked
  have still : s₄.machine = s₃.machine := by
    cases read
    rfl
  rw [← still] at same
  cases line with
  | some line =>
    obtain ⟨tokens, s₅, stored, done⟩ := bind_eq_ok.mp last
    have later := sameRoutine_of_storeLine stored
    cases done
    exact .goesOn (same.trans later)
  | none =>
    cases last
    exact .waits same

theorem concludes_of_executeRandom {values : List UInt16}
    (run : executeRandom inst values s = .ok outcome t) :
    Concludes inst s.machine outcome t.machine := by
  obtain ⟨range, s₁, given, rolling⟩ := bind_eq_ok.mp run
  obtain ⟨value, s₂, rolled, last⟩ := bind_eq_ok.mp rolling
  have ended := (Ending.finish (K := H) value).concludes last
  cases rolled
  exact ended.of_same ((Works.operand (K := H) 0).sameRoutine given)

theorem concludes_of_executeSave (run : executeSave inst s = .ok outcome t) :
    Concludes inst s.machine outcome t.machine := by
  rw [executeSave, get_bind] at run
  obtain ⟨bytes, s₁, asked, saving⟩ := bind_eq_ok.mp run
  obtain ⟨saved, s₂, kept, last⟩ := bind_eq_ok.mp saving
  have ended := (Ending.branchIf (K := H) saved).concludes last
  obtain ⟨-, rfl⟩ := ask_eq_ok.mp asked
  cases kept
  exact ended

theorem concludes_of_execute (notRestore : inst.opcode ≠ .restore)
    (notRestart : inst.opcode ≠ .restart) (run : execute inst s = .ok outcome t) :
    Concludes inst s.machine outcome t.machine := by
  obtain ⟨values, mid, resolved, executed⟩ := bind_eq_ok.mp run
  refine Concludes.of_same ((Works.resolveAll (K := H) inst.operands).sameRoutine resolved) ?_
  cases out : outward inst.opcode with
  | false => exact (Ending.executeWith (K := H) out).concludes executed
  | true =>
    rw [executeWith] at executed
    rcases eq_of_outward out with op | op | whole
    · rw [op] at executed
      exact concludes_of_executeRead executed
    · rw [op] at executed
      exact concludes_of_executeRandom executed
    · rcases eq_of_wholesale whole with op | op | op
      · rw [op] at executed
        exact concludes_of_executeSave executed
      · exact absurd op notRestore
      · exact absurd op notRestart

/-- The outcome of a step is that of its instruction. -/
theorem execute_of_step (fetched : fetch s = .ok inst t) (run : step s = .ok outcome u) :
    ∃ v, execute inst t = .ok outcome v ∧ v.machine = u.machine := by
  rw [step, bind_of_ok fetched] at run
  obtain ⟨outcome', v, executed, last⟩ := bind_eq_ok.mp run
  split at last
  · cases last
    exact ⟨v, executed, rfl⟩
  · cases last
    exact ⟨_, executed, rfl⟩

theorem concludes_of_step (fetched : fetch s = .ok inst t) (notRestore : inst.opcode ≠ .restore)
    (notRestart : inst.opcode ≠ .restart) (run : step s = .ok outcome u) :
    Concludes inst t.machine outcome u.machine := by
  obtain ⟨v, executed, same⟩ := execute_of_step fetched run
  rw [← same]
  exact concludes_of_execute notRestore notRestart executed

theorem isCall_of_branchIf {condition : Bool} (run : branchIf inst condition s = .ok .called t) :
    inst.opcode = .call := by
  cases (Ending.branchIf (K := H) condition).concludes run with
  | calls _ isCall _ _ _ => exact isCall

theorem isCall_of_executeRestore (run : executeRestore inst s = .ok .called t) :
    inst.opcode = .call := by
  obtain ⟨given, mid, asked, restoring⟩ := bind_eq_ok.mp run
  cases given with
  | none => exact isCall_of_branchIf restoring
  | some bytes =>
    dsimp only at restoring
    split at restoring
    · cases restoring
    · cases restoring
    · exact isCall_of_branchIf restoring

/-- No instruction but `call` calls a routine. -/
theorem isCall_of_step (fetched : fetch s = .ok inst t) (run : step s = .ok .called u) :
    inst.opcode = .call := by
  obtain ⟨v, executed, -⟩ := execute_of_step fetched run
  obtain ⟨values, mid, -, ran⟩ := bind_eq_ok.mp executed
  by_cases restores : inst.opcode = .restore
  · rw [executeWith, restores] at ran
    exact isCall_of_executeRestore ran
  by_cases restarts : inst.opcode = .restart
  · rw [executeWith, restarts] at ran
    obtain ⟨⟨⟩, last, -, ended⟩ := bind_eq_ok.mp ran
    cases ended
  cases concludes_of_step fetched restores restarts run with
  | calls _ isCall _ _ _ => exact isCall

end ZMachine.Interpreter
