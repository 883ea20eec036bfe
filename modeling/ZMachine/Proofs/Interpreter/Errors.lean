import ZMachine.Proofs.Interpreter.Composition
import ZMachine.Interpreter.Run
import ZMachine.Proofs.Interpreter.Request
import ZMachine.Proofs.Machine.Errors
import ZMachine.Proofs.Snapshot.Basic

/-!
# Errors of requests

What stops an instruction, or the taking over of a saved game, is an ordinary error. So a run that
fails by the limit on instructions has met the limit itself, and no step has told it so; and the
count of instructions is full only before an instruction that would be one too many
(`count_of_perform`).
-/

namespace ZMachine

/-! ### Saved games -/

namespace Frames

end Frames

namespace Snapshot

theorem ordinary_below (address : Nat) (memory : Memory) : Ordinary (below address memory) :=
  .ite (.error rfl) (.ok _)

end Snapshot

namespace Interpreter

variable {H : Type} {inst : Instruction}

theorem ordinary_statusLine (m : Machine) : Ordinary (statusLine m) := by
  refine .bind (m.ordinary_readGlobal _) fun location => .bind (m.ordinary_objectName _) fun _ => ?_
  refine .bind (m.ordinary_readGlobal _) fun _ => .bind (m.ordinary_readGlobal _) fun _ => ?_
  exact .ite (.ok _) (.ok _)

theorem Question.ordinary {α : Type} {f : Machine → Except MachineError α} (q : Question f)
    (m : Machine) : Ordinary (f m) := by
  cases q with
  | readInPlace number => exact m.ordinary_readInPlace number
  | link l object => exact m.ordinary_link l object
  | hasAttribute object index => exact m.ordinary_hasAttribute object index
  | getProperty object property => exact m.ordinary_getProperty object property
  | propertyAddress object property => exact m.ordinary_propertyAddress object property
  | nextProperty object property => exact m.ordinary_nextProperty object property
  | objectName object => exact m.ordinary_objectName object
  | statusLine => exact ordinary_statusLine m
  | wordAt address => exact m.ordinary_wordAt _
  | textAt address => exact .bind (ZString.ordinary_decode _ _ _) fun _ => .ok _
  | textAtPacked packed => exact ZString.ordinary_decodePacked _ _ _
  | looking g => exact .ok _

theorem Change.ordinarily {α : Type} {operation : MachineM α} (c : Change operation) :
    Ordinarily operation := by
  cases c with
  | readVariable number => exact Machine.ordinarily_readVariable number
  | writeVariable number value => exact Machine.ordinarily_writeVariable number value
  | writeInPlace number value => exact Machine.ordinarily_writeInPlace number value
  | push value => exact Machine.ordinarily_push value
  | pop => exact Machine.ordinarily_pop
  | setAttribute object index set => exact Machine.ordinarily_setAttribute object index set
  | insertObject object destination => exact Machine.ordinarily_insertObject object destination
  | removeObject object => exact Machine.ordinarily_removeObject object
  | putProperty object property value => exact Machine.ordinarily_putProperty object property value
  | writeByte address near value => exact Machine.ordinarily_writeByte address value
  | appendToTable table text => exact Machine.ordinarily_appendToTable table text
  | callPacked packed arguments store =>
    exact Machine.ordinarily_callPacked packed arguments store
  | giveBack value => exact Machine.ordinarily_giveBack value
  | jump offset => exact .modify _

theorem ordinarily_onMachine {α : Type} {operation : MachineM α} (h : Ordinarily operation) :
    Ordinarily (onMachine operation : Play H α) := by
  intro s
  cases run : operation s.machine with
  | ok a m =>
    rw [onMachine_of_ok run]
    trivial
  | error e m =>
    rw [onMachine_of_error run]
    exact h.of_error run

theorem ordinarily_ask {α : Type} {f : Machine → Except MachineError α}
    (h : ∀ m, Ordinary (f m)) : Ordinarily (ask f : Play H α) :=
  ordinarily_onMachine (.query h)

theorem ordinarily_selectStream (stream : Int) (table : Option UInt16) :
    Ordinarily (selectStream stream table : Play H Unit) := by
  refine .ite (.modify _) (.ite (.modify _) ?_)
  refine .ite (ordinarily_onMachine (Machine.ordinarily_setTranscript _)) ?_
  refine .ite (ordinarily_onMachine (Machine.ordinarily_setTranscript _)) ?_
  refine .ite ?_ (.ite (.modify _) (.pure ()))
  cases table with
  | none => exact fun _ => rfl
  | some table =>
    refine .bind (fun _ => trivial) fun streams => .ite (fun _ => rfl) ?_
    exact .bind (ordinarily_onMachine (Machine.ordinarily_writeWord _ _)) fun _ => .modify _

variable [Host H]

theorem Composed.ordinarily {α : Type} {x : Play H α} (h : Composed x) : Ordinarily x := by
  induction h with
  | pure a => exact .pure a
  | bind _ _ ihx ihf => exact .bind ihx ihf
  | refuse why => exact fun _ => rfl
  | failDivision => exact fun _ => rfl
  | ask q => exact ordinarily_ask q.ordinary
  | change c => exact ordinarily_onMachine c.ordinarily
  | tell notice => exact .modify _
  | readLine length => exact fun _ => trivial
  | selected => exact fun _ => trivial
  | selectStream stream table => exact ordinarily_selectStream stream table
  | roll range => exact fun _ => trivial
  | await text parse => exact .modify _
  | storeLine line text parse =>
    exact .get_bind fun _ => ordinarily_onMachine (Machine.ordinarily_storeLine _ _ _ _)

theorem ordinarily_prepareHeader : Ordinarily (prepareHeader : Play H Unit) := by
  refine .bind (ordinarily_ask fun m => m.ordinary_inspect _) fun _ => ?_
  refine .get_bind fun _ => ordinarily_onMachine ?_
  refine .bind (Machine.ordinarily_poke _ _) fun _ => ?_
  refine .bind (Machine.ordinarily_poke _ _) fun _ => ?_
  refine .bind (Machine.ordinarily_poke _ _) fun _ => ?_
  refine .bind (Machine.ordinarily_poke _ _) fun _ => ?_
  exact Machine.ordinarily_poke _ _

theorem ordinarily_restart : Ordinarily (restart : Play H Unit) := by
  refine .bind (ordinarily_onMachine Machine.ordinarily_restart) fun _ => ?_
  refine .bind ordinarily_prepareHeader fun _ => .bind (.modify _) fun _ => .modify _

theorem ordinary_encode (pc : Nat) (resume : ResumePoint) (m : Machine) :
    Ordinary (encode pc resume m) := by
  refine .bind (.bind (Snapshot.ordinary_below _ _) fun _ => .ok _) fun _ => ?_
  refine .bind (Snapshot.ordinary_below _ _) fun original => ?_
  rw [Difference.compress_eq]
  exact .ok _

theorem ordinarily_executeSave : Ordinarily (executeSave inst : Play H Outcome) :=
  .get_bind fun _ => .bind (ordinarily_ask (ordinary_encode _ _)) fun _ =>
    .bind (fun _ => trivial) fun saved => (Composed.branchIf saved).ordinarily

theorem ordinarily_executeRestore : Ordinarily (executeRestore inst : Play H Outcome) := by
  refine .bind (fun _ => trivial) fun given => ?_
  have branching : Ordinarily (branchIf inst false : Play H Outcome) :=
    (Composed.branchIf false).ordinarily
  cases given with
  | none => exact branching
  | some bytes =>
    intro s
    dsimp only
    split
    · trivial
    · rfl
    · exact branching _

theorem ordinarily_execute : Ordinarily (execute inst : Play H Outcome) := by
  refine .bind (Composed.resolveAll inst.operands).ordinarily fun values => ?_
  cases whole : wholesale inst.opcode with
  | false => exact (Composed.executeWith whole).ordinarily
  | true =>
    rw [executeWith]
    rcases eq_of_wholesale whole with op | op | op
    · rw [op]
      exact ordinarily_executeSave
    · rw [op]
      exact ordinarily_executeRestore
    · rw [op]
      exact .bind ordinarily_restart fun _ => .pure _

/-- The operation fails for the count of instructions only when it is full, and else with ordinary
errors. -/
def Counts {α : Type} (x : Play H α) : Prop :=
  ∀ s e t, x s = .error e t →
    e.ordinary = true ∨ e = .countFull ∧ countLimit ≤ t.count + 1

namespace Counts

variable {α β : Type} {x : Play H α} {f : α → Play H β}

omit [Host H] in
theorem of_ordinarily (h : Ordinarily x) : Counts x :=
  fun _ _ _ failed => Or.inl (h.of_error failed)

omit [Host H] in
theorem bind (hx : Counts x) (hf : ∀ a, Counts (f a)) : Counts (x >>= f) := by
  intro s e t failed
  rcases bind_eq_error.mp failed with first | ⟨a, u, -, later⟩
  · exact hx s e t first
  · exact hf a u e t later

end Counts

omit [Host H] in
theorem counts_fetch : Counts (fetch : Play H Instruction) := by
  intro s e t failed
  rw [fetch, get_bind] at failed
  rcases bind_eq_error.mp failed with failed | ⟨inst, u, decoded, failed⟩
  · exact Or.inl ((ordinarily_ask fun _ => Instruction.ordinary_decode _ _ _).of_error failed)
  · obtain ⟨-, rfl⟩ := ask_eq_ok.mp decoded
    rcases bind_eq_error.mp failed with failed | ⟨next, u, moved, failed⟩
    · exact Or.inl ((ordinarily_ask fun _ => ordinary_sized _ _).of_error failed)
    · obtain ⟨-, rfl⟩ := ask_eq_ok.mp moved
      split at failed
      · next full =>
        cases failed
        exact Or.inr ⟨rfl, full⟩
      · cases failed

theorem counts_step : Counts (step : Play H Outcome) := by
  refine counts_fetch.bind fun inst => .of_ordinarily (.bind ordinarily_execute fun outcome => ?_)
  dsimp only
  split
  · exact .bind (.modify _) fun _ => .pure _
  · exact .bind (.pure ()) fun _ => .pure _

theorem counts_runRoutine (depth fuel : Nat) :
    Counts (runRoutine depth fuel : Play H (Option UInt16)) := by
  induction fuel with
  | zero => exact .of_ordinarily (.pure none)
  | succ fuel ih =>
    refine counts_step.bind fun outcome => ?_
    cases outcome with
    | returned value =>
      intro s e t failed
      dsimp only at failed
      rw [get_bind] at failed
      split at failed
      · cases failed
      · exact ih s e t failed
    | quit => exact .of_ordinarily (.pure _)
    | waiting => exact .of_ordinarily fun _ => rfl
    | _ => exact ih

theorem counts_callRoutine (packed : UInt16) (arguments : List UInt16) :
    Counts (callRoutine packed arguments : Play H (Option UInt16)) := by
  rw [callRoutine]
  split
  · exact .of_ordinarily (.pure _)
  · intro s
    refine Counts.bind (.of_ordinarily ?_) (fun _ => counts_runRoutine _ _) s
    exact ordinarily_onMachine (Machine.ordinarily_callPacked _ _ _)

end Interpreter

end ZMachine
