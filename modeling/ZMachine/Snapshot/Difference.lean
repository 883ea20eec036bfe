import ZMachine.Checked

/-!
# Memory as a difference

Saved memory is written as its difference from the pristine image, byte by byte by exclusive or. A
byte that differs stands for itself; a run of up to 256 bytes that do not is written as a zero and
one less than its length. Unchanged bytes at the end may be left out when reading.
-/

namespace ZMachine.Difference

/-- The difference at a place; what lies beyond `pristine` is compared with zero. -/
def differenceAt (current pristine : Memory) (i : Nat) : Except MachineError UInt8 := do
  let b ← current.byteIn i
  pure (b ^^^ pristine.byte i)

def longestRun : Nat := 256

/-- Writes the pairs for a number of unchanged bytes behind what has been written. -/
def writeRun (written : Memory) (unchanged : Nat) : Except MachineError Memory :=
  if 0 < unchanged then do
    let run := min unchanged longestRun
    let less ← subtract run 1
    let _ ← subtract unchanged run
    writeRun ((written.push 0).push (.ofNat less)) (unchanged - run)
  else pure written
termination_by unchanged
decreasing_by
  simp only [longestRun]
  omega

/-- Writes the differences from place `i` on; the run of unchanged bytes before it, which may be
empty, begins at `start`. -/
def writeAt (current pristine written : Memory) (start i : Nat) : Except MachineError Memory :=
  if i < current.size then do
    let difference ← differenceAt current pristine i
    if difference = 0 then writeAt current pristine written start (i + 1)
    else
      let unchanged ← subtract i start
      let written ← writeRun written unchanged
      writeAt current pristine (written.push difference) (i + 1) (i + 1)
  else do
    let unchanged ← subtract i start
    writeRun written unchanged
termination_by current.size - i

def compress (current pristine : List UInt8) : Except MachineError (List UInt8) := do
  let written ← writeAt current.toArray pristine.toArray #[] 0 0
  pure written.toList

/-- Reads a difference from the pristine bytes; `done` is the memory before it. -/
def expandAt (pristine done : Memory) : List UInt8 → Except MachineError Memory
  | [] => do
    let rest ← pristine.bytesIn done.size pristine.size
    pure (done ++ rest)
  | b :: compressed =>
    if b = 0 then
      match compressed with
      | [] => .error (.badSnapshot .incompleteRun)
      | more :: compressed =>
        let stop := done.size + (more.toNat + 1)
        if pristine.size < stop then .error (.badSnapshot .runTooLong)
        else do
          let run ← pristine.bytesIn done.size stop
          expandAt pristine (done ++ run) compressed
    else
      match pristine[done.size]? with
      | none => .error (.badSnapshot .tooMuchMemory)
      | some p => expandAt pristine (done.push (p ^^^ b)) compressed

def decompress (compressed pristine : List UInt8) : Except MachineError (List UInt8) := do
  let memory ← expandAt pristine.toArray #[] compressed
  pure memory.toList

end ZMachine.Difference
