import ZMachine.Interpreter.Basic

/-!
# Output

Text goes to the innermost table that has been selected, or else to the screen and, while
transcripting is on, to the transcript. A table begins with a word that counts the characters; they
follow it in ZSCII.
-/

namespace ZMachine.Interpreter

variable {H : Type} [Host H]

def tableLimit : Nat := 16

/-- Where the character with the given number goes in a table. Addresses have 16 bits. -/
def tableSlot (table : UInt16) (index : Nat) : Nat :=
  (table.toNat + 2 + index) % 0x10000

/-- Writes characters into a table that has `count` characters from before and `written` new ones.
The new ones are counted in 16 bits; gives how many they are in the end. -/
def writeTable (table count : UInt16) (written : Nat) : List Char → MachineM Nat
  | [] => pure written
  | c :: rest => do
    Machine.writeByte (tableSlot table (count.toNat + written)) (.ofNat (Zscii.ofChar c))
    let written ← Machine.query fun _ => sized 16 (written + 1)
    writeTable table count written rest

def appendToTable (table : UInt16) (text : List Char) : MachineM Unit := do
  let count ← Machine.query (Machine.wordAt table.toNat)
  let written ← writeTable table count 0 text
  Machine.writeWord table.toNat (count + .ofNat written)

def output (text : List Char) : Play H Unit := do
  let streams ← selected
  match streams.tables with
  | table :: _ => onMachine (appendToTable table text)
  | [] =>
    if streams.screen ∧ text ≠ [] then
      let transcript ← ask fun m => .ok m.transcriptOn
      tellHost fun host => Host.print host (String.ofList text) transcript
    else pure ()

/-- Selects output to the table at an address, which starts empty. -/
def openTable (table : Option UInt16) : Play H Unit := do
  match table with
  | none => refuse .streamWithoutTable
  | some table =>
    let streams ← selected
    if tableLimit ≤ streams.tables.length then refuse (.streamTooDeep tableLimit)
    else
      onMachine (Machine.writeWord table.toNat 0)
      modify fun s => { s with streams := { s.streams with tables := table :: s.streams.tables } }

/-- Selects an output stream by its number, or deselects it by the negative number: 1 the screen, 2
the transcript, 3 a table. Other numbers do nothing. -/
def selectStream (stream : Int) (table : Option UInt16) : Play H Unit := do
  if stream = 1 then modify fun s => { s with streams := { s.streams with screen := true } }
  else if stream = -1 then modify fun s => { s with streams := { s.streams with screen := false } }
  else if stream = 2 then onMachine (Machine.setTranscript true)
  else if stream = -2 then onMachine (Machine.setTranscript false)
  else if stream = 3 then openTable table
  else if stream = -3 then
    modify fun s => { s with streams := { s.streams with tables := s.streams.tables.tail } }
  else pure ()

/-- What belongs on the status line: the name of the object in the first global, and the next two
globals as score and turns or as a time. -/
def statusLine (m : Machine) : Except MachineError (List Char × Status) := do
  let location ← m.readGlobal 0x10
  let name ← m.objectName location
  let first ← m.readGlobal 0x11
  let second ← m.readGlobal 0x12
  if Header.showsTime (m.memory.byte Header.flags1Address) then
    pure (name, .time first.toNat second.toNat)
  else pure (name, .score (Word.signed first) second.toNat)

def showStatus : Play H Unit := do
  let (name, status) ← ask statusLine
  tellHost fun host => Host.updateStatus host (String.ofList name) status

/-- Writes a byte of dynamic memory, and tells the host when that turns fixed pitch on or off. -/
def writeWatched (address : Nat) (value : UInt8) : Play H Unit := do
  let before ← ask fun m => .ok m.fixedPitch
  onMachine (Machine.writeByte address value)
  let after ← ask fun m => .ok m.fixedPitch
  if before ≠ after then tellHost fun host => Host.setFixedPitch host after else pure ()

end ZMachine.Interpreter
