import ZMachine.Instruction.Decoding
import ZMachine.Snapshot.Container
import ZMachine.Snapshot.Difference
import ZMachine.Snapshot.Frames
import ZMachine.Snapshot.Head

/-!
# Saved games

A saved game is a form of three chunks: the head, the dynamic memory as a difference from the
pristine image, and the frames. It can be read by any machine for the same story, whatever its
state.
-/

namespace ZMachine

structure Snapshot where
  head : SnapshotHead
  dynamicMemory : List UInt8
  frames : CallStack
  deriving DecidableEq, Repr

namespace Snapshot

/-- The type of the form: `GRSS`. -/
def formType : List UInt8 := [0x47, 0x52, 0x53, 0x53]

/-- The identifier of the head: `HEAD`. -/
def headId : List UInt8 := [0x48, 0x45, 0x41, 0x44]

/-- The identifier of the memory: `CMem`. -/
def memoryId : List UInt8 := [0x43, 0x4D, 0x65, 0x6D]

/-- The identifier of the frames: `Stks`. -/
def framesId : List UInt8 := [0x53, 0x74, 0x6B, 0x73]

def formatVersion : UInt8 := 1

/-- The bytes of a memory below an address, which has to lie inside. -/
def below (address : Nat) (memory : Memory) : Except MachineError (List UInt8) :=
  if memory.size < address then .error .fault else .ok (memory.extract 0 address).toList

/-- The head of a game of the story that goes on at `pc` in the given way. -/
def headFor (story : Story) (pc : Nat) (resume : ResumePoint) : SnapshotHead where
  version := formatVersion
  release := story.header.release
  serial := story.header.serial
  checksum := story.header.checksum
  pc
  resume

/-- The machine as it stands, to go on at `pc` in the given way. -/
def capture (m : Machine) (pc : Nat) (resume : ResumePoint) : Except MachineError Snapshot := do
  let dynamicMemory ← below m.dynamicSize m.memory
  pure { head := headFor m.story pc resume, dynamicMemory, frames := m.frames }

def pristine (story : Story) : Except MachineError (List UInt8) :=
  below story.dynamicSize story.image

/-- The saved game as a form whose memory is written as the given bytes. -/
def toContainer (s : Snapshot) (memory : List UInt8) : Container where
  formType := formType
  chunks :=
    [{ id := headId, data := s.head.toBytes },
     { id := memoryId, data := memory },
     { id := framesId, data := Frames.toBytes s.frames.toList }]

def toBytes (s : Snapshot) (story : Story) : Except MachineError (List UInt8) := do
  let original ← pristine story
  let memory ← Difference.compress s.dynamicMemory original
  pure (s.toContainer memory).toBytes

/-- The data of a chunk that has to be there. -/
def chunk (c : Container) (id : List UInt8) : Except MachineError (List UInt8) :=
  match c.find? id with
  | some data => .ok data
  | none => .error (.badSnapshot (.missingChunk (Text.ofUtf8Lossy id)))

/-- The head of a game that the machine can go on with. -/
def checkHead (head : SnapshotHead) (m : Machine) : Except MachineError Unit :=
  let header := m.story.header
  if head.version ≠ formatVersion then
    .error (.badSnapshot (.version head.version.toNat formatVersion.toNat))
  else if head.release ≠ header.release ∨ head.serial ≠ header.serial ∨
      head.checksum ≠ header.checksum then
    .error (.badSnapshot (.otherStory head.release.toNat (Text.ofUtf8Lossy head.serial)
      header.release.toNat header.serialText))
  else if m.memory.size ≤ head.pc then .error (.badSnapshot (.pcOutside head.pc))
  else .ok ()

/-- The saved game in some bytes, if it is one of the machine's story. -/
def ofBytes (bytes : List UInt8) (m : Machine) : Except MachineError Snapshot := do
  let container ← Container.ofBytes bytes
  if container.formType ≠ formType then
    throw (.badSnapshot (.formType (Text.ofUtf8Lossy container.formType)))
  else
    let headData ← chunk container headId
    let head ← SnapshotHead.ofBytes headData
    checkHead head m
    let memoryData ← chunk container memoryId
    let original ← pristine m.story
    let dynamicMemory ← Difference.decompress memoryData original
    let framesData ← chunk container framesId
    let frames ← Frames.ofBytes framesData
    pure { head, dynamicMemory, frames }

/-- Memory with the saved dynamic part in front of the machine's other bytes; it has to fit in. -/
def memoryOver (s : Snapshot) (memory : Memory) : Except MachineError Memory :=
  if memory.size < s.dynamicMemory.length then .error .fault
  else .ok (s.dynamicMemory.toArray ++ memory.extract s.dynamicMemory.length memory.size)

/-- The branch returns from its routine when the save has worked. -/
def returnsOnSuccess : Option Branch → Bool
  | some branch => branch.onTrue && (branch.offset == 0 || branch.offset == 1)
  | none => false

/-- The `save` instruction that made the snapshot, decoded from the saved memory. The address behind
it has 32 bits. -/
def saveInstruction (s : Snapshot) (m : Machine) : Except MachineError Instruction := do
  let pc := s.head.pc
  let memory ← s.memoryOver m.memory
  let inst ← Instruction.decode memory pc m.story.header.abbreviations.toNat
  if inst.opcode ≠ .save then throw (.badSnapshot (.noSaveInstruction pc inst.opcode))
  else if returnsOnSuccess inst.branch ∧ s.frames.depth = 0 then
    throw (.badSnapshot (.returnsFromTopLevel pc))
  else
    let _ ← sized 32 (pc + inst.size)
    pure inst

/-- The `save` instruction that has to be finished first, if the game was saved by one. -/
def unfinished (s : Snapshot) (m : Machine) : Except MachineError (Option Instruction) :=
  match s.head.resume with
  | .saveInstruction => do
    let inst ← s.saveInstruction m
    pure (some inst)
  | _ => pure none

def apply (s : Snapshot) : MachineM Unit :=
  fun m =>
    match s.memoryOver m.memory with
    | .ok memory => .ok () { m with memory, frames := s.frames, pc := s.head.pc }
    | .error e => .error e m

end Snapshot

end ZMachine
