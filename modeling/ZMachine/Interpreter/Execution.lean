import ZMachine.Interpreter.Output
import ZMachine.Interpreter.Saving

/-!
# What the instructions do

Arithmetic is signed, 16 bits wide and wraps. Addresses of table entries wrap to 16 bits too.
Instructions that name a variable by their first operand reach the stack in place.
-/

namespace ZMachine.Interpreter

variable {H : Type}

/-- Branches on a comparison of the first two operands as signed numbers. -/
def compareBranch (inst : Instruction) (values : List UInt16) (holds : Int → Int → Bool) :
    Play H Outcome := do
  let a ← operand inst values 0
  let b ← operand inst values 1
  branchIf inst (holds (Word.signed a) (Word.signed b))

/-- Stores a word made of the first two operands. -/
def combine (inst : Instruction) (values : List UInt16) (f : UInt16 → UInt16 → UInt16) :
    Play H Outcome := do
  let a ← operand inst values 0
  let b ← operand inst values 1
  finish inst (f a b)

def failDivision : Play H Outcome :=
  fun s => .error (.divisionByZero s.currentPc) s

/-- Stores a quotient or remainder of the first two operands as signed numbers. -/
def divide (inst : Instruction) (values : List UInt16) (f : Int → Int → Int) : Play H Outcome := do
  let a ← operand inst values 0
  let b ← operand inst values 1
  if b = 0 then failDivision
  else finish inst (Word.ofInt (f (Word.signed a) (Word.signed b)))

def executeRandom (inst : Instruction) (values : List UInt16) : Play H Outcome := do
  let range ← operand inst values 0
  let value ← roll (Word.signed range)
  finish inst value

/-- Stores something read off the machine with the first operand. -/
def askOne (inst : Instruction) (values : List UInt16)
    (f : UInt16 → Machine → Except MachineError UInt16) : Play H Outcome := do
  let a ← operand inst values 0
  let value ← ask (f a)
  finish inst value

def askTwo (inst : Instruction) (values : List UInt16)
    (f : UInt16 → UInt16 → Machine → Except MachineError UInt16) : Play H Outcome := do
  let a ← operand inst values 0
  let b ← operand inst values 1
  let value ← ask (f a b)
  finish inst value

def askObject (inst : Instruction) (values : List UInt16) (l : Link) : Play H Outcome := do
  let object ← operand inst values 0
  let found ← ask (Machine.link l object)
  storeResult inst found
  branchIf inst (found ≠ 0)

def executeJin (inst : Instruction) (values : List UInt16) : Play H Outcome := do
  let object ← operand inst values 0
  let container ← operand inst values 1
  let parent ← ask (Machine.link .parent object)
  branchIf inst (parent = container)

def executeTestAttr (inst : Instruction) (values : List UInt16) : Play H Outcome := do
  let object ← operand inst values 0
  let index ← operand inst values 1
  let has ← ask (Machine.hasAttribute object index)
  branchIf inst has

/-- Changes the machine by the first two operands and goes on. -/
def changeTwo (inst : Instruction) (values : List UInt16)
    (f : UInt16 → UInt16 → MachineM Unit) : Play H Outcome := do
  let a ← operand inst values 0
  let b ← operand inst values 1
  onMachine (f a b)
  pure .continued

def executePutProp (inst : Instruction) (values : List UInt16) : Play H Outcome := do
  let object ← operand inst values 0
  let property ← operand inst values 1
  let value ← operand inst values 2
  onMachine (Machine.putProperty object property value)
  pure .continued

/-- The address of a table entry: the first operand and the second times the size of an entry. -/
def tableEntry (inst : Instruction) (values : List UInt16) (size : Nat) : Play H UInt16 := do
  let table ← operand inst values 0
  let index ← operand inst values 1
  pure (.ofNat (table.toNat + size * index.toNat))

def executeLoadw (inst : Instruction) (values : List UInt16) : Play H Outcome := do
  let address ← tableEntry inst values 2
  let value ← ask (Machine.wordAt address.toNat)
  finish inst value

def executeLoadb (inst : Instruction) (values : List UInt16) : Play H Outcome := do
  let address ← tableEntry inst values 1
  let value ← ask fun m => .ok (m.memory.byte address.toNat)
  finish inst (.ofNat value.toNat)

def executeStorew [Host H] (inst : Instruction) (values : List UInt16) : Play H Outcome := do
  let address ← tableEntry inst values 2
  let value ← operand inst values 2
  writeWatched address.toNat (Word.high value)
  writeWatched (address.toNat + 1) (Word.low value)
  pure .continued

def executeStoreb [Host H] (inst : Instruction) (values : List UInt16) : Play H Outcome := do
  let address ← tableEntry inst values 1
  let value ← operand inst values 2
  writeWatched address.toNat (Word.low value)
  pure .continued

def executeLoad (inst : Instruction) (values : List UInt16) : Play H Outcome := do
  let number ← operand inst values 0
  let value ← ask (Machine.readInPlace (Word.low number))
  finish inst value

/-- Adds to the variable that the first operand names, and gives its new value. -/
def adjust (inst : Instruction) (values : List UInt16) (step : UInt16) : Play H UInt16 := do
  let number ← operand inst values 0
  let old ← ask (Machine.readInPlace (Word.low number))
  let new := old + step
  onMachine (Machine.writeInPlace (Word.low number) new)
  pure new

/-- Adds to a variable and branches on a comparison of its new value with the second operand. -/
def adjustBranch (inst : Instruction) (values : List UInt16) (step : UInt16)
    (holds : Int → Int → Bool) : Play H Outcome := do
  let new ← adjust inst values step
  let bound ← operand inst values 1
  branchIf inst (holds (Word.signed new) (Word.signed bound))

def executePush (inst : Instruction) (values : List UInt16) : Play H Outcome := do
  let value ← operand inst values 0
  onMachine (Machine.push value)
  pure .continued

def executePull (inst : Instruction) (values : List UInt16) : Play H Outcome := do
  let number ← operand inst values 0
  let value ← onMachine Machine.pop
  onMachine (Machine.writeInPlace (Word.low number) value)
  pure .continued

def printInline [Host H] (inst : Instruction) : Play H Unit :=
  match inst.text with
  | some text => output text.toList
  | none => pure ()

def printFound [Host H] (inst : Instruction) (values : List UInt16)
    (f : UInt16 → Machine → Except MachineError (List Char)) : Play H Outcome := do
  let a ← operand inst values 0
  let text ← ask (f a)
  output text
  pure .continued

def textAt (address : UInt16) (m : Machine) : Except MachineError (List Char) := do
  let (text, _) ← ZString.decode m.memory address.toNat m.story.header.abbreviations.toNat
  pure text

def textAtPacked (packed : UInt16) (m : Machine) : Except MachineError (List Char) :=
  ZString.decodePacked m.memory packed m.story.header.abbreviations.toNat

def executePrintChar [Host H] (inst : Instruction) (values : List UInt16) : Play H Outcome := do
  let code ← operand inst values 0
  match ← ask fun _ => Zscii.character code.toNat with
  | some c => output [c]
  | none => pure ()
  pure .continued

def executePrintNum [Host H] (inst : Instruction) (values : List UInt16) : Play H Outcome := do
  let value ← operand inst values 0
  output (Numeral.integer (Word.signed value)).toList
  pure .continued

def storeLine (line : String) (text parse : UInt16) : Play H (List Token) := do
  let s ← get
  onMachine (Machine.storeLine s.dictionary line.toList text.toNat parse.toNat)

def executeRead [Host H] (inst : Instruction) (values : List UInt16) : Play H Outcome := do
  let text ← operand inst values 0
  let parse := values.getD 1 0
  showStatus
  let length ← ask fun m => .ok (m.textCapacity text.toNat)
  match ← onHost fun host => Host.read host length with
  | some line => do
    let _ ← storeLine line text parse
    pure .continued
  | none => do
    await text parse
    pure .waiting

def tellOne (inst : Instruction) (values : List UInt16) (f : H → UInt16 → H) :
    Play H Outcome := do
  let a ← operand inst values 0
  tellHost fun host => f host a
  pure .continued

def executeOutputStream (inst : Instruction) (values : List UInt16) : Play H Outcome := do
  let stream ← operand inst values 0
  selectStream (Word.signed stream) values[1]?
  pure .continued

def executeVerify (inst : Instruction) : Play H Outcome := do
  let intact ← ask fun m => .ok (decide (m.story.checksum = m.story.header.checksum))
  branchIf inst intact

/-- Executes an instruction with its operands; the program counter is already behind it. -/
def executeWith [Host H] (inst : Instruction) (values : List UInt16) : Play H Outcome :=
  match inst.opcode with
  | .je => do
    let a ← operand inst values 0
    let others ← furtherOperands values
    branchIf inst (others.contains a)
  | .jl => compareBranch inst values fun a b => a < b
  | .jg => compareBranch inst values fun a b => b < a
  | .jz => do
    let a ← operand inst values 0
    branchIf inst (a = 0)
  | .test => do
    let bits ← operand inst values 0
    let flags ← operand inst values 1
    branchIf inst (bits &&& flags = flags)
  | .or => combine inst values (· ||| ·)
  | .and => combine inst values (· &&& ·)
  | .not => do
    let a ← operand inst values 0
    finish inst (~~~a)
  | .add => combine inst values (· + ·)
  | .sub => combine inst values (· - ·)
  | .mul => combine inst values (· * ·)
  | .div => divide inst values Int.tdiv
  | .mod => divide inst values Int.tmod
  | .random => executeRandom inst values
  | .jin => executeJin inst values
  | .testAttr => executeTestAttr inst values
  | .setAttr => changeTwo inst values fun object index => Machine.setAttribute object index true
  | .clearAttr => changeTwo inst values fun object index => Machine.setAttribute object index false
  | .insertObj => changeTwo inst values Machine.insertObject
  | .removeObj => do
    let object ← operand inst values 0
    onMachine (Machine.removeObject object)
    pure .continued
  | .getProp => askTwo inst values Machine.getProperty
  | .getPropAddr => askTwo inst values Machine.propertyAddress
  | .getNextProp => askTwo inst values Machine.nextProperty
  | .getPropLen => askOne inst values Machine.propertyLength
  | .putProp => executePutProp inst values
  | .getSibling => askObject inst values .sibling
  | .getChild => askObject inst values .child
  | .getParent => askOne inst values (Machine.link .parent)
  | .printObj => printFound inst values Machine.objectName
  | .store => changeTwo inst values fun number value =>
      Machine.writeInPlace (Word.low number) value
  | .load => executeLoad inst values
  | .loadw => executeLoadw inst values
  | .loadb => executeLoadb inst values
  | .storew => executeStorew inst values
  | .storeb => executeStoreb inst values
  | .inc => do
    let _ ← adjust inst values 1
    pure .continued
  | .dec => do
    let _ ← adjust inst values (-1)
    pure .continued
  | .incChk => adjustBranch inst values 1 fun new bound => bound < new
  | .decChk => adjustBranch inst values (-1) fun new bound => new < bound
  | .push => executePush inst values
  | .pull => executePull inst values
  | .pop => do
    let _ ← onMachine Machine.pop
    pure .continued
  | .print => do
    printInline inst
    pure .continued
  | .printRet => do
    printInline inst
    output ['\n']
    returnValue 1
  | .printAddr => printFound inst values textAt
  | .printPaddr => printFound inst values textAtPacked
  | .printChar => executePrintChar inst values
  | .printNum => executePrintNum inst values
  | .newLine => do
    output ['\n']
    pure .continued
  | .showStatus => do
    showStatus
    pure .continued
  | .sread => executeRead inst values
  | .splitWindow => tellOne inst values Host.splitWindow
  | .setWindow => tellOne inst values Host.selectWindow
  | .outputStream => executeOutputStream inst values
  | .inputStream => pure .continued
  | .soundEffect => pure .continued
  | .call => call inst values
  | .ret => do
    let value ← operand inst values 0
    returnValue value
  | .rtrue => returnValue 1
  | .rfalse => returnValue 0
  | .retPopped => do
    let value ← onMachine Machine.pop
    returnValue value
  | .jump => do
    let offset ← operand inst values 0
    jumpBy (Word.signed offset)
  | .nop => pure .continued
  | .save => executeSave inst
  | .restore => executeRestore inst
  | .restart => do
    restart
    pure .branched
  | .quit => pure .quit
  | .verify => executeVerify inst
  | .piracy => branchIf inst true

def execute [Host H] (inst : Instruction) : Play H Outcome := do
  let values ← resolveAll inst.operands
  executeWith inst values

end ZMachine.Interpreter
