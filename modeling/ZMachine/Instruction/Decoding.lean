import ZMachine.Instruction.Basic
import ZMachine.ZString.Decoding

/-!
# Instructions from memory

An instruction is an opcode byte, perhaps a byte of operand types, the operands, and then whatever
of a store variable, a branch and a text its opcode calls for. `Instruction.decode` reads one;
errors carry the address at which the instruction begins.
-/

namespace ZMachine

namespace Instruction

/-- A reader that stands at an address and moves on. -/
abbrev Reader (α : Type) := StateT Nat (Except MachineError) α

/-- The next byte of the instruction that begins at `start`. -/
def nextByte (memory : Memory) (start : Nat) (part : InstructionPart) : Reader UInt8 :=
  fun address =>
    match memory[address]? with
    | some b => .ok (b, address + 1)
    | none => .error (.undecodable start (.truncated part))

/-- Form, class and number of an opcode byte other than the one that begins an extended opcode. -/
def splitOpcode (b : UInt8) : InstructionForm × OperandCount × Nat :=
  let n := b.toNat
  if 0xC0 ≤ n then (.var, if n < 0xE0 then .op2 else .var, n % 32)
  else if 0x80 ≤ n then (.short, if 0xB0 ≤ n then .op0 else .op1, n % 16)
  else (.long, .op2, n % 32)

/-- The opcode byte that begins an extended opcode, of which version 3 has none. -/
def extendedByte : UInt8 := 0xBE

/-- The operand types in a byte, from its highest bits on, up to the first omitted one. -/
def typesOfByte (b : UInt8) : List OperandType :=
  [b.toNat / 64, b.toNat / 16, b.toNat / 4, b.toNat].map OperandType.ofBits
    |>.takeWhile (· ≠ .omitted)

/-- The operand types; the variable form has a byte for them. -/
def readTypes (memory : Memory) (start : Nat) (opcode : UInt8) :
    InstructionForm → Reader (List OperandType)
  | .long =>
    let type (bit : Bool) : OperandType := if bit then .var else .smallConstant
    pure [type (opcode.toNat / 64 % 2 == 1), type (opcode.toNat / 32 % 2 == 1)]
  | .short => pure ([OperandType.ofBits (opcode.toNat / 16)].filter (· ≠ .omitted))
  | .var => do
    let b ← nextByte memory start .operandTypes
    pure (typesOfByte b)

def readOperands (memory : Memory) (start : Nat) : List OperandType → Reader (List Operand)
  | [] => pure []
  | .largeConstant :: types => do
    let high ← nextByte memory start .largeConstant
    let low ← nextByte memory start .largeConstant
    let rest ← readOperands memory start types
    pure (.large (Word.ofBytes high low) :: rest)
  | .smallConstant :: types => do
    let b ← nextByte memory start .operand
    let rest ← readOperands memory start types
    pure (.small b :: rest)
  | .var :: types => do
    let b ← nextByte memory start .operand
    let rest ← readOperands memory start types
    pure (.var b :: rest)
  | .omitted :: types => readOperands memory start types

def readStore (memory : Memory) (start : Nat) (op : Opcode) : Reader (Option UInt8) :=
  if op.storesResult then do
    let b ← nextByte memory start .storeVariable
    pure (some b)
  else pure none

/-- The branch data. Six bits give an offset from 0 to 63, fourteen bits a signed one. -/
def readBranch (memory : Memory) (start : Nat) (op : Opcode) : Reader (Option Branch) :=
  if op.hasBranch then do
    let first ← nextByte memory start .branchOffset
    let onTrue := first.toNat / 128 == 1
    if first.toNat / 64 % 2 = 1 then
      pure (some { onTrue, offset := first.toNat % 64 })
    else do
      let second ← nextByte memory start .branchOffset
      let bits := first.toNat % 64 * 256 + second.toNat
      let offset : Int := if bits < 0x2000 then bits else (bits : Int) - 0x4000
      pure (some { onTrue, offset })
  else pure none

def readText (memory : Memory) (abbreviations : Nat) (op : Opcode) : Reader (Option String) :=
  if op.hasText then fun address => do
    let (text, length) ← ZString.decode memory address abbreviations
    pure (some (String.ofList text), address + length)
  else pure none

/-- What follows the opcode byte of an instruction of the given form and opcode. -/
def readBehind (memory : Memory) (start abbreviations : Nat) (opcodeByte : UInt8)
    (form : InstructionForm) (opcode : Opcode) : Reader Instruction := do
  let types ← readTypes memory start opcodeByte form
  let operands ← readOperands memory start types
  let store ← readStore memory start opcode
  let branch ← readBranch memory start opcode
  let text ← readText memory abbreviations opcode
  let next ← get
  let size ← (subtract next start : Except MachineError Nat)
  pure { opcode, form, operands, store, branch, text, size }

/-- The instruction at `start`; `abbreviations` is where the abbreviations are listed. -/
def read (memory : Memory) (start abbreviations : Nat) : Reader Instruction := do
  let opcodeByte ← nextByte memory start .address
  if opcodeByte = extendedByte then do
    let extended ← nextByte memory start .extendedOpcode
    throw (.extendedOpcode extended start)
  else do
    let (form, count, number) := splitOpcode opcodeByte
    match Opcode.ofEncoding count number with
    | none => throw (.unknownOpcode opcodeByte count start)
    | some opcode => readBehind memory start abbreviations opcodeByte form opcode

def decode (memory : Memory) (address abbreviations : Nat) : Except MachineError Instruction :=
  (read memory address abbreviations).run' address

end Instruction

end ZMachine
