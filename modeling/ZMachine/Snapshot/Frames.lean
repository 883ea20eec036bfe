import ZMachine.Machine.Basic

/-!
# Frames of a saved game

The number of frames, and for each from the outermost on: where its caller goes on, a flag and a
byte for the variable that gets the result, its locals, and its evaluation stack from the bottom up.
The bytes end with the last frame.
-/

namespace ZMachine.Frames

def storeBytes : Option UInt8 → List UInt8
  | some number => [1, number]
  | none => [0, 0]

def frameBytes (frame : Frame) : List UInt8 :=
  Word.longBytes frame.returnPc ++ storeBytes frame.store ++
    .ofNat frame.locals.length :: frame.locals.flatMap Word.bytes ++
    Word.bytes (.ofNat frame.stack.length) ++ frame.stack.reverse.flatMap Word.bytes

def toBytes (frames : List Frame) : List UInt8 :=
  Word.bytes (.ofNat frames.length) ++ frames.flatMap frameBytes

/-- A reader that takes bytes from the front. -/
abbrev Reader (α : Type) := StateT (List UInt8) (Except MachineError) α

def truncated {α : Type} : Except MachineError α :=
  .error (.badSnapshot .framesTruncated)

/-- The next bytes, as many as asked for. -/
def take (n : Nat) : Reader (List UInt8) := fun bytes =>
  let next := bytes.take n
  if next.length < n then truncated else .ok (next, bytes.drop n)

def byte : Reader UInt8 := do
  let b ← take 1
  (present b[0]? : Except MachineError UInt8)

def word : Reader UInt16 := do
  let b ← take 2
  let high ← (present b[0]? : Except MachineError UInt8)
  let low ← (present b[1]? : Except MachineError UInt8)
  pure (Word.ofBytes high low)

def long : Reader Nat := do
  let b ← take 4
  let first ← (present b[0]? : Except MachineError UInt8)
  let second ← (present b[1]? : Except MachineError UInt8)
  let third ← (present b[2]? : Except MachineError UInt8)
  let fourth ← (present b[3]? : Except MachineError UInt8)
  pure (Word.long first second third fourth)

def wordList : Nat → Reader (List UInt16)
  | 0 => pure []
  | n + 1 => do
    let w ← word
    let rest ← wordList n
    pure (w :: rest)

def frame : Reader Frame := do
  let returnPc ← long
  let flag ← byte
  let number ← byte
  let localCount ← byte
  if localsLimit < localCount.toNat then
    throw (.badSnapshot (.frameLocals localCount.toNat))
  else
    let locals ← wordList localCount.toNat
    let stackCount ← word
    if stackLimit < stackCount.toNat then
      throw (.badSnapshot (.frameStack stackCount.toNat))
    else
      let values ← wordList stackCount.toNat
      pure
        { returnPc
          store := if flag = 0 then none else some number
          locals
          stack := values.reverse }

/-- A number of frames, to be put behind those in `done`, which has the last one first. -/
def frameList (done : List Frame) : Nat → Reader (List Frame)
  | 0 => pure done.reverse
  | n + 1 => do
    let f ← frame
    frameList (f :: done) n

/-- The frames that some bytes describe. To find none of them where at least one was counted is a
fault. -/
def ofBytes (bytes : List UInt8) : Except MachineError CallStack := do
  let (count, bytes) ← word bytes
  if count = 0 then throw (.badSnapshot .noFrame)
  else
    let (frames, rest) ← frameList [] count.toNat bytes
    match frames, CallStack.ofList? frames with
    | outermost :: _, some stack =>
      if rest ≠ [] then throw (.badSnapshot .trailingFrameBytes)
      else if outermost.locals ≠ [] then throw (.badSnapshot .topLevelLocals)
      else pure stack
    | _, _ => throw .fault

end ZMachine.Frames
