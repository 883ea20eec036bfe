import ZMachine.Numeral
import ZMachine.Opcode

/-!
# Instructions

A decoded instruction: its opcode, its operands, and the store variable, the branch and the text
that the opcode calls for. `Instruction.listing` is the form in which a trace shows it.
-/

namespace ZMachine

/-- The two bits that say what an operand is. -/
inductive OperandType where
  | largeConstant
  | smallConstant
  | var
  | omitted
  deriving DecidableEq, Repr

namespace OperandType

/-- The type that the lowest two bits stand for. -/
def ofBits (bits : Nat) : OperandType :=
  match bits % 4 with
  | 0 => largeConstant
  | 1 => smallConstant
  | 2 => var
  | _ => omitted

def size : OperandType → Nat
  | largeConstant => 2
  | smallConstant => 1
  | var => 1
  | omitted => 0

end OperandType

/-- How the opcode byte and the operand types are laid out. -/
inductive InstructionForm where
  | long
  | short
  | var
  deriving DecidableEq, Repr

inductive Operand where
  | large (value : UInt16)
  | small (value : UInt8)
  | var (number : UInt8)
  deriving DecidableEq, Repr

namespace Operand

def type : Operand → OperandType
  | large _ => .largeConstant
  | small _ => .smallConstant
  | var _ => .var

/-- The number that the instruction holds in the operand's place. -/
def raw : Operand → UInt16
  | large value => value
  | small value => .ofNat value.toNat
  | var number => .ofNat number.toNat

end Operand

/-- Where an instruction goes when its condition comes out as `onTrue`. Offsets 0 and 1 return that
number from the routine; any other is relative to the following instruction, less two. -/
structure Branch where
  onTrue : Bool
  offset : Int
  deriving DecidableEq, Repr

structure Instruction where
  opcode : Opcode
  form : InstructionForm
  operands : List Operand
  store : Option UInt8
  branch : Option Branch
  text : Option String
  size : Nat
  deriving DecidableEq, Repr

namespace Instruction

/-- An operand in a listing; `named` marks a constant that names a variable. -/
def listOperand (named : Bool) : Operand → String
  | .var number => "V" ++ Numeral.hex 2 number.toNat
  | operand =>
    if named then "'V" ++ Numeral.hex 2 operand.raw.toNat
    else "#" ++ Numeral.hex 4 operand.raw.toNat

def listOperands (op : Opcode) : List Operand → String
  | [] => ""
  | first :: rest =>
    " " ++ ", ".intercalate
      (listOperand op.takesVariableReference first :: rest.map (listOperand false))

def listBranch (branch : Branch) : String :=
  let target :=
    if branch.offset = 0 then "RFALSE"
    else if branch.offset = 1 then "RTRUE"
    else Numeral.signed branch.offset
  " [" ++ (if branch.onTrue then "TRUE" else "FALSE") ++ " " ++ target ++ "]"

def listing (inst : Instruction) : String :=
  inst.opcode.name ++ listOperands inst.opcode inst.operands ++
    (match inst.store with
      | some number => " -> V" ++ Numeral.hex 2 number.toNat
      | none => "") ++
    (match inst.branch with
      | some branch => listBranch branch
      | none => "") ++
    (match inst.text with
      | some text => " \x22" ++ text ++ "\x22"
      | none => "")

end Instruction

end ZMachine
