import ZMachine.Checked

/-!
# The head of a saved game

Twenty bytes that say which story the game belongs to and how it goes on.
-/

namespace ZMachine

inductive ResumePoint where
  | atPc
  /-- Behind the `save` instruction at the saved program counter, as after a save that worked. -/
  | saveInstruction
  /-- Waiting for a line for these buffers. -/
  | awaitingInput (text parse : UInt16)
  deriving DecidableEq, Repr

namespace ResumePoint

def tag : ResumePoint → UInt8
  | atPc => 0
  | saveInstruction => 1
  | awaitingInput _ _ => 2

/-- The two words behind the tag. -/
def words : ResumePoint → List UInt16
  | awaitingInput text parse => [text, parse]
  | _ => [0, 0]

/-- The resume point whose tag is at an address. -/
def read (bytes : Memory) (address : Nat) : Except MachineError ResumePoint := do
  let tag ← bytes.byteIn address
  if tag = 0 then pure atPc
  else if tag = 1 then pure saveInstruction
  else if tag = 2 then
    let text ← bytes.wordIn (address + 1)
    let parse ← bytes.wordIn (address + 3)
    pure (awaitingInput text parse)
  else throw (.badSnapshot (.resumePoint tag.toNat))

end ResumePoint

structure SnapshotHead where
  version : UInt8
  release : UInt16
  serial : List UInt8
  checksum : UInt16
  pc : Nat
  resume : ResumePoint
  deriving DecidableEq, Repr

namespace SnapshotHead

def toBytes (head : SnapshotHead) : List UInt8 :=
  head.version :: Word.bytes head.release ++ head.serial ++ Word.bytes head.checksum ++
    Word.longBytes head.pc ++ head.resume.tag :: head.resume.words.flatMap Word.bytes

/-- Bytes of a head. -/
def size : Nat := 20

def ofBytes (bytes : List UInt8) : Except MachineError SnapshotHead :=
  let bytes : Memory := bytes.toArray
  if bytes.size < size then .error (.badSnapshot .headTooSmall)
  else do
    let serial ← bytes.bytesIn 3 9
    let pc ← bytes.longIn 11
    let resume ← ResumePoint.read bytes 15
    let version ← bytes.byteIn 0
    let release ← bytes.wordIn 1
    let checksum ← bytes.wordIn 9
    pure { version, release, serial, checksum, pc, resume }

end SnapshotHead

end ZMachine
