import ZMachine.Proofs.Interpreter.Composition
import ZMachine.Proofs.Interpreter.Request
import ZMachine.Proofs.Operation

/-!
# From instructions to requests

An invariant that is kept by the parts of instructions, and by the instructions on the whole
machine, is kept by every instruction (`keeps_executeWith`); one that is kept by steps is kept by
runs and by routines that are called from outside. Each is stated for any invariant and any excuse
for a fault. An invariant in which what instructions work on has no part (`Detached`) is kept by all
of them.
-/

namespace ZMachine.Interpreter

variable {H : Type} [Host H] {inv excused : Interpreter H → Prop} {inst : Instruction}

/-- Restoring is looked at for the bytes alone that the host gives. -/
theorem kept_executeRestore {s : Interpreter H}
    (asked : inv { s with host := (Host.restore s.host).2 })
    (restoring : ∀ bytes, (Host.restore s.host).1 = some bytes →
      Kept inv excused (restoreState bytes { s with host := (Host.restore s.host).2 }))
    (branching : Keeps inv excused (branchIf inst false)) :
    Kept inv excused (executeRestore inst s) := by
  have asking : onHost Host.restore s =
      .ok (Host.restore s.host).1 { s with host := (Host.restore s.host).2 } := rfl
  rw [executeRestore, bind_of_ok asking]
  cases given : (Host.restore s.host).1 with
  | none => exact branching _ asked
  | some bytes =>
    have kept := restoring bytes given
    dsimp only
    split
    · next run => exact kept.state_of_ok run
    · next run => exact ⟨kept.state_of_error run, fun _ => kept.excused_of_fault run⟩
    · next run => exact branching _ (kept.state_of_error run)

theorem keeps_executeRestore (asking : Keeps inv excused (onHost Host.restore))
    (restoring : ∀ bytes, Keeps inv excused (restoreState bytes))
    (branching : Keeps inv excused (branchIf inst false)) :
    Keeps inv excused (executeRestore inst) := by
  intro s h
  have asked : inv { s with host := (Host.restore s.host).2 } := asking s h
  exact kept_executeRestore asked (fun bytes _ => restoring bytes _ asked) branching

theorem keeps_executeWith {values : List UInt16}
    (composed : ∀ {x : Play H Outcome}, Composed x → Keeps inv excused x)
    (saving : Keeps inv excused (executeSave inst))
    (restoring : Keeps inv excused (executeRestore inst))
    (restarting : Keeps inv excused restart) :
    Keeps inv excused (executeWith inst values) := by
  cases whole : wholesale inst.opcode with
  | false => exact composed (Composed.executeWith whole)
  | true =>
    rw [executeWith]
    cases op : inst.opcode with
    | save => exact saving
    | restore => exact restoring
    | restart => exact Keeps.bind restarting fun _ => Keeps.pure _
    | _ =>
      rw [op] at whole
      cases whole

theorem keeps_step (fetching : Keeps inv excused fetch)
    (executing : ∀ inst, Keeps inv excused (execute inst))
    (quitting : ∀ s, inv s → inv { s with state := .quit }) : Keeps inv excused step := by
  refine Keeps.bind fetching fun inst => Keeps.bind (executing inst) fun outcome => ?_
  dsimp only
  split
  · exact Keeps.bind (Keeps.modify quitting) fun _ => Keeps.pure _
  · exact Keeps.bind (Keeps.pure ()) fun _ => Keeps.pure _

/-- By induction on the fuel: a run takes a step and runs on. -/
theorem keeps_runFor {fuel : Nat} (stepping : Keeps inv excused step) :
    Keeps inv excused (runFor fuel) := by
  induction fuel with
  | zero => exact fun _ h => h
  | succ fuel ih =>
    intro s h
    rw [runFor]
    split
    · split
      · exact ⟨h, nofun⟩
      · have kept := stepping s h
        cases run : step s with
        | ok outcome t => exact ih t (kept.state_of_ok run)
        | error e t =>
          rw [run] at kept
          exact kept
    · exact h

theorem keeps_runRoutine {depth fuel : Nat} (stepping : Keeps inv excused step) :
    Keeps inv excused (runRoutine depth fuel) := by
  induction fuel with
  | zero => exact Keeps.pure none
  | succ fuel ih =>
    refine Keeps.bind stepping fun outcome => ?_
    cases outcome with
    | returned value =>
      refine Keeps.get_bind fun s h => ?_
      split
      · exact h
      · exact ih s h
    | quit => exact Keeps.pure _
    | waiting => exact fun _ h => ⟨h, nofun⟩
    | _ => exact ih

theorem keeps_callRoutine {packed : UInt16} {arguments : List UInt16}
    (calling : Keeps inv excused (onMachine (Machine.callPacked packed arguments none)))
    (stepping : Keeps inv excused step) : Keeps inv excused (callRoutine packed arguments) := by
  rw [callRoutine]
  refine Keeps.ite (fun _ => Keeps.pure _) fun _ => Keeps.get_bind fun s h => ?_
  exact Keeps.bind calling (fun _ => keeps_runRoutine stepping) s h

omit [Host H] in
theorem inv_after_of_kept {α : Type} {x : Play H α} {s : Interpreter H}
    (h : Kept inv excused (x s)) : inv (after x s) := by
  rw [after]
  cases run : x s with
  | ok a t => exact h.state_of_ok run
  | error e t => exact h.state_of_error run

omit [Host H] in
theorem kept_of_after {α : Type} {x : Play H α} {s : Interpreter H} (h : inv (after x s)) :
    Kept inv (fun _ => True) (x s) := by
  rw [after] at h
  cases run : x s with
  | ok a t =>
    rw [run] at h
    exact h
  | error e t =>
    rw [run] at h
    exact ⟨h, fun _ => trivial⟩

/-- An invariant that loading establishes and every request keeps holds of all reachable states. -/
theorem Reachable.keeps {image : Memory} {s : Interpreter H} (reachable : Reachable image s)
    (loading : ∀ {story : Story} {host : H} {config : InterpreterConfig} {entropy : Entropy}
      {s : Interpreter H}, Story.load image = .ok story →
        load story host config entropy = .ok s → inv s)
    (requests : ∀ request : Request H, Keeps inv excused request.perform) : inv s := by
  induction reachable with
  | loaded hstory h => exact loading hstory h
  | @after s _ request ih => exact inv_after_of_kept (requests request s ih)

/-! ### Invariants that instructions have no part in -/

/-- The operation never leads out of the invariant, whether or not it fails. -/
def Maintains {α : Type} (inv : Interpreter H → Prop) (x : Play H α) : Prop :=
  Keeps inv (fun _ => True) x

omit [Host H] in
theorem maintains_onMachine {α : Type} (setMachine : ∀ {s} machine, inv s → inv { s with machine })
    (operation : MachineM α) : Maintains inv (onMachine operation) := by
  intro s h
  cases run : operation s.machine with
  | ok a m =>
    rw [onMachine_of_ok run]
    exact setMachine m h
  | error e m =>
    rw [onMachine_of_error run]
    exact ⟨setMachine m h, fun _ => trivial⟩

omit [Host H] in
theorem maintains_selectStream {table : Option UInt16}
    (setMachine : ∀ {s} machine, inv s → inv { s with machine })
    (screen : ∀ {s} on, inv s → inv { s with streams := { s.streams with screen := on } })
    (opening : Maintains inv (openTable table))
    (closing : ∀ {s}, inv s →
      inv { s with streams := { s.streams with tables := s.streams.tables.tail } })
    (stream : Int) : Maintains inv (selectStream stream table) := by
  have onMachine (operation : MachineM Unit) : Maintains inv (onMachine operation) :=
    maintains_onMachine setMachine operation
  rw [selectStream]
  refine Keeps.ite (fun _ => Keeps.modify fun _ h => screen true h) fun _ => ?_
  refine Keeps.ite (fun _ => Keeps.modify fun _ h => screen false h) fun _ => ?_
  refine Keeps.ite (fun _ => onMachine _) fun _ => Keeps.ite (fun _ => onMachine _) fun _ => ?_
  refine Keeps.ite (fun _ => opening) fun _ => ?_
  exact Keeps.ite (fun _ => Keeps.modify fun _ h => closing h) fun _ => Keeps.pure ()

omit [Host H] in
/-- Selecting streams keeps what says nothing of the machine and the streams. -/
theorem maintains_selectStream_of_streams
    (setMachine : ∀ {s} machine, inv s → inv { s with machine })
    (setStreams : ∀ {s} streams, inv s → inv { s with streams })
    (stream : Int) (table : Option UInt16) : Maintains inv (selectStream stream table) := by
  refine maintains_selectStream setMachine (fun _ h => setStreams _ h) ?_ (fun h => setStreams _ h)
    stream
  cases table with
  | none => exact fun _ h => ⟨h, fun _ => trivial⟩
  | some table =>
    refine Keeps.bind (fun _ h => h) fun streams => Keeps.ite (fun _ _ h => ?_) fun _ => ?_
    · exact ⟨h, fun _ => trivial⟩
    · refine Keeps.bind (maintains_onMachine setMachine _) fun _ => ?_
      exact Keeps.modify fun _ h => setStreams _ h

/-- An invariant that says nothing of the machine, the host, the run state and the place of the
instruction. It may speak of the streams, as far as selecting them keeps it, and of the random
numbers, as far as drawing them does. -/
structure Detached (inv : Interpreter H → Prop) : Prop where
  setMachine : ∀ {s} machine, inv s → inv { s with machine }
  setHost : ∀ {s} host, inv s → inv { s with host }
  roll : ∀ {s} range, inv s → inv { s with random := (s.random.roll range).2 }
  setState : ∀ {s} state, inv s → inv { s with state }
  setCurrentPc : ∀ {s} currentPc, inv s → inv { s with currentPc }
  selectStream : ∀ stream table, Maintains inv (selectStream stream table)
  closeTables : ∀ {s}, inv s → inv { s with streams := { s.streams with tables := [] } }
  restartStreams : ∀ {s}, inv s → inv { s with streams := {} }

namespace Detached

variable {α : Type}

omit [Host H] in
theorem onMachine (d : Detached inv) (operation : MachineM α) :
    Maintains inv (onMachine operation) :=
  maintains_onMachine (fun machine => d.setMachine machine) operation

omit [Host H] in
theorem onHost (d : Detached inv) (operation : H → α × H) : Maintains inv (onHost operation) :=
  fun _ h => d.setHost _ h

theorem composed (d : Detached inv) {x : Play H α} (h : Composed x) : Maintains inv x := by
  induction h with
  | pure a => exact Keeps.pure a
  | bind _ _ ihx ihf => exact Keeps.bind ihx ihf
  | refuse why => exact fun _ h => ⟨h, fun _ => trivial⟩
  | failDivision => exact fun _ h => ⟨h, fun _ => trivial⟩
  | ask q => exact d.onMachine _
  | change c => exact d.onMachine _
  | tell notice => exact fun _ h => d.setHost _ h
  | readLine length => exact d.onHost _
  | selected => exact fun _ h => h
  | selectStream stream table => exact d.selectStream stream table
  | roll range => exact fun _ h => d.roll range h
  | await text parse => exact fun _ h => d.setState _ h
  | storeLine line text parse => exact Keeps.get_bind fun s h => d.onMachine _ s h

theorem prepareHeader (d : Detached inv) : Maintains inv prepareHeader :=
  Keeps.bind (d.onMachine _) fun _ => Keeps.get_bind fun s h => d.onMachine _ s h

theorem restart (d : Detached inv) : Maintains inv restart := by
  refine Keeps.bind (d.onMachine _) fun _ => Keeps.bind d.prepareHeader fun _ => ?_
  refine Keeps.bind (Keeps.modify fun s h => ?_) fun _ => Keeps.modify fun s h => d.setHost _ h
  exact d.setState _ (d.restartStreams h)

theorem resume (d : Detached inv) {snapshot : Snapshot} {unfinished : Option Instruction} :
    Maintains inv (resume snapshot unfinished) := by
  have takeOver : Maintains inv (takeOver snapshot) := by
    refine Keeps.bind (d.onMachine _) fun _ => Keeps.bind d.prepareHeader fun _ => ?_
    exact Keeps.modify fun s h => d.setState _ (d.closeTables h)
  have finishing (inst) : Maintains inv (finishSave inst) := by
    refine Keeps.bind (Keeps.modify fun s h => ?_) fun _ => ?_
    · exact d.setMachine _ (d.setCurrentPc s.machine.pc h)
    · exact Keeps.bind (d.composed (.branchIf true)) fun _ => Keeps.pure ()
  refine Keeps.bind takeOver fun _ => ?_
  cases unfinished with
  | none =>
    cases snapshot.head.resume with
    | atPc | saveInstruction => exact Keeps.pure ()
    | awaitingInput text parse => exact d.composed (.await text parse)
  | some inst =>
    refine Keeps.bind (finishing inst) fun _ => ?_
    cases snapshot.head.resume with
    | atPc | saveInstruction => exact Keeps.pure ()
    | awaitingInput text parse => exact d.composed (.await text parse)

theorem restoreState (d : Detached inv) {bytes : List UInt8} :
    Maintains inv (restoreState bytes) :=
  Keeps.bind (d.onMachine _) fun _ => Keeps.bind (d.onMachine _) fun _ => d.resume

theorem execute (d : Detached inv) (inst : Instruction) : Maintains inv (execute inst) := by
  refine Keeps.bind (d.composed (.resolveAll inst.operands)) fun values => ?_
  have saving : Maintains inv (executeSave inst) := by
    refine Keeps.get_bind fun s h => Keeps.bind (d.onMachine _) (fun bytes => ?_) s h
    exact Keeps.bind (d.onHost _) fun _ => d.composed (.branchIf _)
  have restoring : Maintains inv (executeRestore inst) :=
    keeps_executeRestore (d.onHost _) (fun _ => d.restoreState) (d.composed (.branchIf false))
  exact keeps_executeWith d.composed saving restoring d.restart

/-- The requests that execute no instructions keep it. -/
theorem perform_of_idle (d : Detached inv) {request : Request H} (idle : request.executes = false) :
    Maintains inv request.perform := by
  cases request with
  | step | run | callRoutine => cases idle
  | provideInput line =>
    refine Keeps.get_bind fun s h => ?_
    cases s.state with
    | waiting text parse =>
      refine Keeps.bind (d.composed (.storeLine line text parse)) (fun _ => ?_) s h
      exact Keeps.modify fun _ h => d.setState _ h
    | running => exact h
    | quit => exact h
  | restart => exact d.restart
  | saveState =>
    refine Keeps.bind ?_ fun _ => Keeps.pure ()
    exact Keeps.get_bind fun s h => d.onMachine _ s h
  | restoreState bytes => exact d.restoreState
  | changeHost change => exact Keeps.modify fun _ h => d.setHost _ h

theorem step (d : Detached inv) (setCount : ∀ {s} count, inv s → inv { s with count }) :
    Maintains inv step := by
  have fetching : Maintains inv fetch := by
    refine Keeps.get_bind fun s h => Keeps.bind (d.onMachine _) (fun inst => ?_) s h
    refine Keeps.bind (d.onMachine _) fun _ => Keeps.ite (fun _ => Keeps.throw nofun) fun _ => ?_
    refine Keeps.bind (Keeps.modify fun _ h => ?_) fun _ => Keeps.pure inst
    exact setCount _ (d.setCurrentPc _ (d.setMachine _ h))
  exact keeps_step fetching d.execute fun _ h => d.setState _ h

/-- Every request keeps it if it says nothing of the count either. -/
theorem perform (d : Detached inv) (setCount : ∀ {s} count, inv s → inv { s with count })
    (request : Request H) : Maintains inv request.perform := by
  have stepping : Maintains inv Interpreter.step := d.step setCount
  cases request with
  | step => exact Keeps.bind stepping fun _ => Keeps.pure ()
  | run => exact Keeps.bind (fun s h => keeps_runFor stepping s h) fun _ => Keeps.pure ()
  | callRoutine packed arguments =>
    exact Keeps.bind (keeps_callRoutine (d.onMachine _) stepping) fun _ => Keeps.pure ()
  | _ => exact d.perform_of_idle rfl

end Detached

end ZMachine.Interpreter
