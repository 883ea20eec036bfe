import ZMachine.Proofs.Instruction.Parsing
import ZMachine.Proofs.Machine.Input

/-!
# Where an instruction is read

An instruction lies within memory, so the address behind it is at most the size of memory, and
reading one never faults. Instructions of the class without operands have none.
-/

namespace ZMachine

namespace Instruction

variable {α β : Type} {memory : Memory} {start address table : Nat} {inst : Instruction}

theorem add_size_le (h : decode memory address table = .ok inst) :
    address < memory.size ∧ address + inst.size ≤ memory.size := by
  obtain ⟨bytes, encodes, held⟩ := decode_eq_ok_iff.mp h
  have inside := held.le_size
  obtain ⟨b, behind, rfl, -⟩ := encodes_iff.mp encodes
  rw [encodes.size_eq]
  rw [List.length_cons] at inside ⊢
  omega

theorem operands_of_op0 (h : decode memory address table = .ok inst)
    (op0 : inst.opcode.count = .op0) : inst.operands = [] := by
  obtain ⟨bytes, encodes, -⟩ := decode_eq_ok_iff.mp h
  obtain ⟨opens⟩ := encodes
  exact List.map_eq_nil_iff.mp (opens.of_op0 op0).1

theorem exists_store (h : decode memory address table = .ok inst)
    (stores : inst.opcode.storesResult = true) : ∃ number, inst.store = some number := by
  obtain ⟨bytes, encodes, -⟩ := decode_eq_ok_iff.mp h
  obtain ⟨-, ⟨field⟩, -⟩ := encodes
  rw [stores] at field
  generalize inst.store = store at field ⊢
  cases field with
  | present _ => exact ⟨_, rfl⟩

/-! ### No faults -/

/-- From `start` on, the reader never faults and never goes back before it. -/
def Faultless (start : Nat) (x : Reader α) : Prop :=
  ∀ address, start ≤ address → x address ≠ .error .fault ∧
    ∀ a next, x address = .ok (a, next) → start ≤ next

theorem Faultless.pure (a : α) : Faultless start (pure a : Reader α) := by
  refine fun address from_le => ⟨nofun, fun b next eq => ?_⟩
  cases eq
  exact from_le

theorem Faultless.bind {x : Reader α} {f : α → Reader β} (hx : Faultless start x)
    (hf : ∀ a, Faultless start (f a)) : Faultless start (x >>= f) := by
  intro address from_le
  obtain ⟨faultless, onward⟩ := hx address from_le
  refine ⟨reader_bind_ne_error faultless fun a next run => (hf a next (onward a next run)).1, ?_⟩
  intro b next run
  obtain ⟨a, mid, first, second⟩ := reader_bind_eq_ok.mp run
  exact (hf a mid (onward a mid first)).2 b next second

theorem Faultless.throw {e : MachineError} (ne : e ≠ .fault) :
    Faultless start (throw e : Reader α) := by
  refine fun address from_le => ⟨fun eq => ?_, nofun⟩
  cases eq
  exact ne rfl

theorem faultless_nextByte (part : InstructionPart) :
    Faultless start (nextByte memory start part) := by
  intro address from_le
  refine ⟨?_, fun b next run => ?_⟩
  · rw [nextByte]
    split <;> (intro eq; cases eq)
  · obtain ⟨-, -, rfl⟩ := nextByte_eq_ok_iff.mp run
    exact Nat.le_succ_of_le from_le

theorem faultless_readTypes (opcode : UInt8) (form : InstructionForm) :
    Faultless start (readTypes memory start opcode form) := by
  cases form with
  | long => exact .pure _
  | short => exact .pure _
  | var => exact (faultless_nextByte _).bind fun _ => .pure _

theorem faultless_readOperands (types : List OperandType) :
    Faultless start (readOperands memory start types) := by
  induction types with
  | nil => exact .pure _
  | cons type rest ih =>
    cases type with
    | largeConstant =>
      refine (faultless_nextByte _).bind fun _ => (faultless_nextByte _).bind fun _ => ?_
      exact ih.bind fun _ => .pure _
    | smallConstant => exact (faultless_nextByte _).bind fun _ => ih.bind fun _ => .pure _
    | var => exact (faultless_nextByte _).bind fun _ => ih.bind fun _ => .pure _
    | omitted => exact ih

theorem faultless_readStore (op : Opcode) : Faultless start (readStore memory start op) := by
  rw [readStore]
  split
  · exact (faultless_nextByte _).bind fun _ => .pure _
  · exact .pure _

theorem faultless_readBranch (op : Opcode) : Faultless start (readBranch memory start op) := by
  rw [readBranch]
  split
  · refine (faultless_nextByte _).bind fun _ => ?_
    dsimp only
    split
    · exact .pure _
    · exact (faultless_nextByte _).bind fun _ => .pure _
  · exact .pure _

theorem faultless_readText (op : Opcode) : Faultless start (readText memory table op) := by
  rw [readText]
  split
  · refine fun address from_le => ⟨bind_ne_error ZString.decode_ne_fault fun _ _ => nofun, ?_⟩
    intro text next run
    obtain ⟨⟨found, length⟩, -, eq⟩ := except_bind_eq_ok.mp run
    cases eq
    exact Nat.le_add_right_of_le from_le
  · exact .pure _

/-- The place behind an instruction lies behind its beginning, so it has a size. -/
theorem faultless_size : Faultless start (do
    let next ← get
    (subtract next start : Except MachineError Nat) : Reader Nat) := by
  intro address from_le
  have run : (do
      let next ← get
      (subtract next start : Except MachineError Nat) : Reader Nat) address =
        .ok (address - start, address) := by
    rw [reader_bind_of_ok rfl, subtract_of_le from_le]
    rfl
  rw [run]
  refine ⟨nofun, fun size next eq => ?_⟩
  cases eq
  exact from_le

theorem faultless_readBehind (opcodeByte : UInt8) (form : InstructionForm) (opcode : Opcode) :
    Faultless start (readBehind memory start table opcodeByte form opcode) := by
  refine (faultless_readTypes _ _).bind fun types => ?_
  refine (faultless_readOperands _).bind fun operands => ?_
  refine (faultless_readStore _).bind fun store => ?_
  refine (faultless_readBranch _).bind fun branch => ?_
  refine (faultless_readText _).bind fun text => ?_
  rw [← bind_assoc]
  exact faultless_size.bind fun _ => .pure _

theorem faultless_read : Faultless start (read memory start table) := by
  refine (faultless_nextByte _).bind fun opcodeByte => ?_
  split
  · exact (faultless_nextByte _).bind fun _ => .throw nofun
  · dsimp only
    split
    · exact .throw nofun
    · exact faultless_readBehind _ _ _

theorem decode_ne_fault : decode memory address table ≠ .error .fault := by
  have faultless := (@faultless_read memory address table address (Nat.le_refl _)).1
  simp only [decode, StateT.run']
  cases run : read memory address table address with
  | ok r =>
    intro eq
    cases eq
  | error e =>
    intro eq
    cases eq
    exact faultless run

end Instruction

end ZMachine
