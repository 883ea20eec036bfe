import ZMachine.Interpreter.Basic

/-!
# Operands, results and the flow of control

How an instruction gets its operands, where its result goes, and how it branches, calls and returns.
-/

namespace ZMachine.Interpreter

variable {H : Type}

/-- The value of an operand; that of a variable is read, and popped if it is on the stack. -/
def resolve : Operand → Play H UInt16
  | .large value => pure value
  | .small value => pure (.ofNat value.toNat)
  | .var number => onMachine (Machine.readVariable number)

def resolveAll : List Operand → Play H (List UInt16)
  | [] => pure []
  | first :: rest => do
    let value ← resolve first
    let values ← resolveAll rest
    pure (value :: values)

/-- The value of the operand with an index, which the instruction has to supply. -/
def operand (inst : Instruction) (values : List UInt16) (index : Nat) : Play H UInt16 :=
  match values[index]? with
  | some value => pure value
  | none => refuse (.missingOperand inst.opcode index)

/-- The operands behind the first, of which there has to be one. -/
def furtherOperands (values : List UInt16) : Play H (List UInt16) :=
  ask fun _ => stretch values 1 values.length

def storeResult (inst : Instruction) (value : UInt16) : Play H Unit :=
  match inst.store with
  | some number => onMachine (Machine.writeVariable number value)
  | none => pure ()

def finish (inst : Instruction) (value : UInt16) : Play H Outcome := do
  storeResult inst value
  pure .continued

/-- Moves by an offset from the following instruction, less two. -/
def jumpBy (offset : Int) : Play H Outcome := do
  onMachine (Machine.jump offset)
  pure .branched

/-- Returns from the running routine; the caller's variable gets the value. -/
def returnValue (value : UInt16) : Play H Outcome := do
  onMachine (Machine.giveBack value)
  pure (.returned value)

/-- Takes the branch of an instruction if the condition comes out as the branch asks. -/
def branchIf (inst : Instruction) (condition : Bool) : Play H Outcome :=
  match inst.branch with
  | none => pure .continued
  | some branch =>
    if condition ≠ branch.onTrue then pure .continued
    else if branch.offset = 0 then returnValue 0
    else if branch.offset = 1 then returnValue 1
    else jumpBy branch.offset

/-- Calls the routine that the first operand names. A call of routine 0 only gives 0. -/
def call (inst : Instruction) (values : List UInt16) : Play H Outcome := do
  let packed ← operand inst values 0
  if packed = 0 then finish inst 0
  else
    let arguments ← furtherOperands values
    onMachine (Machine.callPacked packed arguments inst.store)
    pure .called

end ZMachine.Interpreter
