import ZMachine.Dictionary.Token
import ZMachine.Machine.Basic
import ZMachine.Text.Blank

/-!
# Input lines in memory

A line goes into the text buffer in lower case, as far as there is room, and ends with a zero byte.
The first byte of the buffer is one more than the characters it takes. The parse buffer, if the
story gives one, gets a block of four bytes for each word, up to as many as its first byte says: the
dictionary entry, the length, and the place in the text buffer.
-/

namespace ZMachine.Machine

/-- The ZSCII codes of a line: lower case, blanks as spaces, line ends and characters without a
code left out. -/
def lineCodes (line : List Char) : List UInt8 :=
  (Text.lowercase line).filter (fun c => c ≠ '\n' ∧ c ≠ '\r')
    |>.map (fun c => if Text.isBlank c then ' ' else c)
    |>.filterMap Zscii.ofChar?
    |>.map fun code => .ofNat code

/-- Characters that the text buffer at an address takes. -/
def textCapacity (m : Machine) (text : Nat) : Nat :=
  (m.memory.byte text).toNat - 1

def writeBlock (address : Nat) (token : Token) : MachineM Unit := do
  writeWord address token.entry
  writeByte (address + 2) (.ofNat token.text.length)
  writeByte (address + 3) (.ofNat token.position)

def writeBlocks (address : Nat) : List Token → MachineM Unit
  | [] => pure ()
  | token :: rest => do
    writeBlock address token
    writeBlocks (address + 4) rest

/-- Puts a line into the text buffer and, unless `parse` is 0, its words into the parse buffer.
Gives the words written. -/
def storeLine (d : Dictionary) (line : List Char) (text parse : Nat) : MachineM (List Token) := do
  let m ← get
  let codes := (lineCodes line).take (m.textCapacity text)
  writeBytes (text + 1) codes
  writeByte (text + 1 + codes.length) 0
  if parse = 0 then pure []
  else
    let found ← query fun m => d.tokenize m.memory codes
    let m ← get
    let tokens := found.take (m.memory.byte parse).toNat
    writeByte (parse + 1) (.ofNat tokens.length)
    writeBlocks (parse + 2) tokens
    pure tokens

end ZMachine.Machine
