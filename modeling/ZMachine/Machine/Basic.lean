import ZMachine.Header

/-!
# The machine

Live memory, the program counter and the stack of routine frames, over a story that never changes.
Operations run in `MachineM`, which keeps the state on an error as it was when the error arose.
-/

namespace ZMachine

structure Frame where
  returnPc : Nat
  store : Option UInt8
  locals : List UInt16
  /-- The evaluation stack, its top first. -/
  stack : List UInt16
  deriving DecidableEq, Repr

def Frame.topLevel : Frame :=
  { returnPc := 0, store := none, locals := [], stack := [] }

/-- The frames of all routines that have not returned; there is always one. -/
structure CallStack where
  innermost : Frame
  callers : List Frame
  deriving DecidableEq, Repr

namespace CallStack

def topLevel : CallStack :=
  { innermost := .topLevel, callers := [] }

def depth (stack : CallStack) : Nat :=
  stack.callers.length

def toList (stack : CallStack) : List Frame :=
  (stack.innermost :: stack.callers).reverse

/-- The stack of frames listed from the outermost, if there are any. -/
def ofList? (frames : List Frame) : Option CallStack :=
  match frames.reverse with
  | [] => none
  | innermost :: callers => some { innermost, callers }

@[simp] theorem ofList?_toList (stack : CallStack) : ofList? stack.toList = some stack := by
  simp [ofList?, toList]

end CallStack

structure Machine where
  story : Story
  memory : Memory
  pc : Nat
  frames : CallStack

def stackLimit : Nat := 1024

def localsLimit : Nat := 15

def depthLimit : Nat := 1024

abbrev MachineM (α : Type) := EStateM MachineError Machine α

namespace Machine

def start (story : Story) : Machine :=
  { story, memory := story.image, pc := story.header.initialPc.toNat, frames := .topLevel }

def dynamicSize (m : Machine) : Nat :=
  m.story.dynamicSize

/-- Something read off the machine, which leaves it alone. -/
def query {α : Type} (f : Machine → Except MachineError α) : MachineM α :=
  fun m =>
    match f m with
    | .ok a => .ok a m
    | .error e => .error e m

/-- A byte of memory that has to be there; past the end is a fault. -/
def inspect (address : Nat) (m : Machine) : Except MachineError UInt8 :=
  if address < m.memory.size then .ok (m.memory.byte address) else .error .fault

/-- Writes a byte of memory wherever it lies; past the end is a fault. -/
def poke (address : Nat) (value : UInt8) : MachineM Unit :=
  fun m =>
    if address < m.memory.size then .ok () { m with memory := m.memory.put address value }
    else .error .fault m

/-- Addresses and program counters have 32 bits. -/
def addressLimit : Nat := 0x1_0000_0000

/-- The word at an address; its second byte has to have an address, too. -/
def wordAt (address : Nat) (m : Machine) : Except MachineError UInt16 :=
  if address + 1 < addressLimit then .ok (m.memory.word address) else .error .fault

/-- Writes a byte of dynamic memory. What is no address at all is a fault. -/
def writeByte (address : Nat) (value : UInt8) : MachineM Unit :=
  fun m =>
    if addressLimit ≤ address then .error .fault m
    else if m.dynamicSize ≤ address then .error (.writeOutside address) m
    else poke address value m

/-- Writes a word of dynamic memory, its first byte before its second. -/
def writeWord (address : Nat) (value : UInt16) : MachineM Unit := do
  writeByte address (Word.high value)
  writeByte (address + 1) (Word.low value)

def writeBytes (address : Nat) : List UInt8 → MachineM Unit
  | [] => pure ()
  | b :: rest => do
    writeByte address b
    writeBytes (address + 1) rest

/-- The bits of flags 2 that belong to the session: transcript and fixed pitch. -/
def sessionBits (flags2 : UInt16) : UInt16 :=
  flags2 &&& 3

def flags2 (m : Machine) : UInt16 :=
  m.memory.word Header.flags2Address

def transcriptOn (m : Machine) : Bool :=
  m.flags2 &&& 1 != 0

/-- The story asks for fixed-pitch printing. -/
def fixedPitch (m : Machine) : Bool :=
  m.flags2 &&& 2 != 0

def setFlags2 (value : UInt16) : MachineM Unit := do
  poke Header.flags2Address (Word.high value)
  poke (Header.flags2Address + 1) (Word.low value)

def setTranscript (on : Bool) : MachineM Unit := do
  let m ← get
  setFlags2 (if on then m.flags2 ||| 1 else m.flags2 &&& 0xFFFE)

/-- Keeps the session's bits of flags 2 through something that overwrites memory. -/
def keepingSessionBits (overwrite : MachineM Unit) : MachineM Unit := do
  let before ← get
  overwrite
  let after ← get
  setFlags2 (after.flags2 &&& 0xFFFC ||| sessionBits before.flags2)

def restart : MachineM Unit :=
  keepingSessionBits (modify fun m => start m.story)

/-- Moves by an offset from the following instruction, less two. Jumps wrap around at the limit of
addresses. -/
def jump (offset : Int) : MachineM Unit :=
  modify fun m => { m with pc := ((m.pc + offset - 2) % addressLimit).toNat }

end Machine

end ZMachine
