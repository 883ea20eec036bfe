import ZMachine.Interpreter.Control
import ZMachine.Proofs.Interpreter.Session
import ZMachine.Proofs.Machine.Routine

/-!
# Branches

A branch concerns the machine only (`branchIf_eq`), and reads no memory. So it does the same to two
machines that differ in some bytes of memory only, and leaves them with differences among the same
bytes (`runsAlike_branchIf`): what it writes, it writes to both.
-/

namespace ZMachine

namespace Machine

variable {α β : Type} {addresses : List Nat}

/-- What the operation does on one machine, it does on one with other bytes at the addresses. -/
def RunsAlike (addresses : List Nat) (operation : MachineM α) : Prop :=
  ∀ m memory r m', Memory.AgreeBut addresses memory m.memory → operation m = .ok r m' →
    ∃ memory', operation { m with memory } = .ok r { m' with memory := memory' } ∧
      Memory.AgreeBut addresses memory' m'.memory

namespace RunsAlike

theorem pure (r : α) : RunsAlike addresses (Pure.pure r : MachineM α) := by
  intro m memory r' m' agree run
  cases run
  exact ⟨memory, rfl, agree⟩

theorem bind {x : MachineM α} {f : α → MachineM β} (hx : RunsAlike addresses x)
    (hf : ∀ r, RunsAlike addresses (f r)) : RunsAlike addresses (x >>= f) := by
  intro m memory r m' agree run
  obtain ⟨q, mid, first, second⟩ := bind_eq_ok.mp run
  obtain ⟨midMemory, first', agree⟩ := hx m memory q mid agree first
  obtain ⟨memory', second', agree⟩ := hf q mid midMemory r m' agree second
  exact ⟨memory', (bind_of_ok first').trans second', agree⟩

end RunsAlike

theorem runsAlike_push (value : UInt16) : RunsAlike addresses (push value) := by
  intro m memory r m' agree run
  rw [push] at run
  split at run
  · cases run
  · next room =>
    cases run
    exact ⟨memory, if_neg room, agree⟩

theorem runsAlike_writeLocal (number : Nat) (value : UInt16) :
    RunsAlike addresses (writeLocal number value) := by
  intro m memory r m' agree run
  rw [writeLocal] at run ⊢
  split at run
  · cases run
  · next positive =>
    cases run
    exact ⟨memory, if_neg positive, agree⟩

theorem runsAlike_writeByte (address : Nat) (value : UInt8) :
    RunsAlike addresses (writeByte address value) := by
  intro m memory r m' agree run
  rw [writeByte] at run
  split at run
  · cases run
  · next addressable =>
    split at run
    · cases run
    · next dynamic =>
      rw [poke] at run
      split at run
      · next inside =>
        cases run
        refine ⟨memory.put address value, ?_, agree.put_both address value⟩
        refine (if_neg addressable).trans ((if_neg dynamic).trans (poke_of_lt ?_))
        rw [← agree.size_eq] at inside
        exact inside
      · cases run

theorem runsAlike_writeVariable (number : UInt8) (value : UInt16) :
    RunsAlike addresses (writeVariable number value) := by
  rw [writeVariable]
  split
  · exact runsAlike_push value
  · split
    · exact runsAlike_writeLocal _ _
    · next global =>
      intro m memory r m' agree run
      rw [writeGlobal_eq, get_bind, if_neg global] at run
      have write : RunsAlike addresses (writeWord (m.globalAddress number) value) :=
        (runsAlike_writeByte _ _).bind fun _ => runsAlike_writeByte _ _
      obtain ⟨memory', run', agree⟩ := write m memory r m' agree run
      refine ⟨memory', ?_, agree⟩
      rw [writeGlobal_eq, get_bind, if_neg global]
      exact run'

theorem runsAlike_leave : RunsAlike addresses leave := by
  intro m memory r m' agree run
  simp only [leave] at run ⊢
  split at run
  · cases run
  · cases run
    exact ⟨memory, rfl, agree⟩

theorem runsAlike_giveBack (value : UInt16) : RunsAlike addresses (giveBack value) := by
  refine runsAlike_leave.bind fun frame => ?_
  split
  · exact runsAlike_writeVariable _ _
  · exact .pure ()

theorem runsAlike_jump (offset : Int) : RunsAlike addresses (jump offset) := by
  intro m memory r m' agree run
  cases run
  exact ⟨memory, rfl, agree⟩

def branchIf (branch : Option Branch) (condition : Bool) : MachineM Outcome :=
  match branch with
  | none => pure .continued
  | some branch =>
    if condition ≠ branch.onTrue then pure .continued
    else if branch.offset = 0 then do
      giveBack 0
      pure (.returned 0)
    else if branch.offset = 1 then do
      giveBack 1
      pure (.returned 1)
    else do
      jump branch.offset
      pure .branched

theorem runsAlike_branchIf (branch : Option Branch) (condition : Bool) :
    RunsAlike addresses (branchIf branch condition) := by
  cases branch with
  | none => exact .pure _
  | some branch =>
    simp only [branchIf]
    split
    · exact .pure _
    · split
      · exact (runsAlike_giveBack 0).bind fun _ => .pure _
      · split
        · exact (runsAlike_giveBack 1).bind fun _ => .pure _
        · exact (runsAlike_jump _).bind fun _ => .pure _

theorem branchIf_ne_quit {branch : Option Branch} {condition : Bool} {m m' : Machine}
    {outcome : Outcome} (run : branchIf branch condition m = .ok outcome m') :
    outcome ≠ .quit := by
  cases branch with
  | none =>
    cases run
    exact nofun
  | some branch =>
    simp only [branchIf] at run
    split at run
    · cases run
      exact nofun
    · split at run
      · obtain ⟨⟨⟩, mid, -, run⟩ := bind_eq_ok.mp run
        cases run
        exact nofun
      · split at run
        · obtain ⟨⟨⟩, mid, -, run⟩ := bind_eq_ok.mp run
          cases run
          exact nofun
        · cases run
          exact nofun

theorem branchIf_of_returns {branch : Option Branch}
    (returns : Snapshot.returnsOnSuccess branch = true) :
    ∃ value, branchIf branch true = (do giveBack value; pure (.returned value)) := by
  cases branch with
  | none => cases returns
  | some branch =>
    simp only [Snapshot.returnsOnSuccess, Bool.and_eq_true, Bool.or_eq_true, beq_iff_eq] at returns
    simp only [branchIf, returns.1, ne_eq, not_true_eq_false, if_false]
    rcases returns.2 with zero | one
    · exact ⟨0, if_pos zero⟩
    · exact ⟨1, (if_neg (by omega)).trans (if_pos one)⟩

/-- Only a return can fail. -/
theorem branchIf_of_stays {branch : Option Branch}
    (stays : Snapshot.returnsOnSuccess branch = false) (m : Machine) :
    ∃ outcome m', branchIf branch true m = .ok outcome m' := by
  cases branch with
  | none => exact ⟨_, m, rfl⟩
  | some branch =>
    simp only [branchIf]
    split
    · exact ⟨_, m, rfl⟩
    · next taken =>
      have onTrue : branch.onTrue = true := (Decidable.not_not.mp taken).symm
      simp only [Snapshot.returnsOnSuccess, onTrue, Bool.true_and, Bool.or_eq_false_iff,
        beq_eq_false_iff_ne, ne_eq] at stays
      rw [if_neg stays.1, if_neg stays.2]
      exact ⟨_, _, rfl⟩

/-- Where the branch returns from its routine on success, there is a caller to return to if it has
been taken. -/
theorem depth_ne_zero_of_branchIf {branch : Option Branch} {m m' : Machine} {outcome : Outcome}
    (run : branchIf branch true m = .ok outcome m')
    (returns : Snapshot.returnsOnSuccess branch = true) : m.frames.depth ≠ 0 := by
  intro top
  obtain ⟨value, eq⟩ := branchIf_of_returns returns
  rw [eq, bind_of_error (giveBack_topLevel value top)] at run
  cases run

end Machine

namespace Interpreter

variable {H : Type}

theorem onMachine_bind_pure (operation : MachineM Unit) (outcome : Outcome) :
    (do onMachine operation; pure outcome : Play H Outcome) =
      onMachine (do operation; pure outcome) := by
  funext s
  simp only [bind, EStateM.bind, onMachine]
  cases operation s.machine <;> rfl

theorem branchIf_eq (inst : Instruction) (condition : Bool) :
    (branchIf inst condition : Play H Outcome) =
      onMachine (Machine.branchIf inst.branch condition) := by
  simp only [branchIf, Machine.branchIf]
  cases inst.branch with
  | none => rfl
  | some branch =>
    simp only [returnValue, jumpBy, onMachine_bind_pure]
    split
    · rfl
    · split
      · rfl
      · split <;> rfl

theorem branchIf_ne_quit {condition : Bool} (inst : Instruction) (t u : Interpreter H) :
    branchIf inst condition t ≠ .ok .quit u := by
  intro run
  rw [branchIf_eq] at run
  obtain ⟨m, taken, -⟩ := onMachine_eq_ok.mp run
  exact Machine.branchIf_ne_quit taken rfl

end Interpreter

end ZMachine
