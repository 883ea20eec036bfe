import ZMachine.Interpreter.Execution

/-!
# Running a story

A step decodes the instruction at the program counter and executes it. A run goes on until the story
quits, waits for a line, or fails, or until the limit on instructions is reached.
-/

namespace ZMachine.Interpreter

variable {H : Type}

/-- Instructions that any run can execute: they are counted in 64 bits. -/
def countLimit : Nat := 0x1_0000_0000_0000_0000

/-- Decodes the instruction at the program counter, moves behind it, and counts it. -/
def fetch : Play H Instruction := do
  let s ← get
  let pc := s.machine.pc
  let inst ← ask fun m => Instruction.decode m.memory pc m.story.header.abbreviations.toNat
  let next ← ask fun _ => sized 32 (pc + inst.size)
  if countLimit ≤ s.count + 1 then throw .countFull
  else
    modify fun s =>
      { s with currentPc := pc, machine := { s.machine with pc := next }, count := s.count + 1 }
    pure inst

variable [Host H]

def step : Play H Outcome := do
  let inst ← fetch
  let outcome ← execute inst
  if outcome = .quit then modify fun s => { s with state := .quit } else pure ()
  pure outcome

def exhausted (s : Interpreter H) : Option Nat :=
  s.limit.filter (· ≤ s.count)

/-- Executes at most so many instructions; gives `none` if the story could go on then. -/
def runFor : Nat → Play H (Option RunState)
  | 0, s => .ok none s
  | fuel + 1, s =>
    if s.state = .running then
      match s.exhausted with
      | some limit => .error (.instructionLimit limit) s
      | none =>
        match step s with
        | .ok _ s => runFor fuel s
        | .error e s => .error e s
    else .ok (some s.state) s

/-- Fuel that suffices to come to the limit on instructions. -/
def fuel (s : Interpreter H) : Nat :=
  s.limit.getD countLimit - s.count + 1

/-- Runs until the story quits or waits for a line. Without a limit a story may do neither; it then
fails when instructions can be counted no further. -/
def run : Play H (Option RunState) :=
  fun s => runFor s.fuel s

/-- Gives a waiting story its line; when it does not wait, the line is dropped. -/
def provideInput (line : String) : Play H Unit := do
  let s ← get
  match s.state with
  | .waiting text parse => do
    let _ ← storeLine line text parse
    modify fun s => { s with state := .running }
  | _ => pure ()

/-- Executes instructions until a return leads back to `depth` nested calls; gives `none` if that
takes more than `fuel` instructions. -/
def runRoutine (depth : Nat) : Nat → Play H (Option UInt16)
  | 0 => pure none
  | fuel + 1 => do
    match ← step with
    | .returned value => do
      let s ← get
      if s.machine.frames.depth = depth then pure (some value) else runRoutine depth fuel
    | .quit => pure (some 0)
    | .waiting => refuse .inputDuringHostCall
    | _ => runRoutine depth fuel

/-- Calls a routine by its packed address from wherever the story is, and gives what it returns.
Routine 0 gives 0. -/
def callRoutine (packed : UInt16) (arguments : List UInt16) : Play H (Option UInt16) := do
  if packed = 0 then pure (some 0)
  else
    let s ← get
    onMachine (Machine.callPacked packed arguments none)
    runRoutine s.machine.frames.depth countLimit

end ZMachine.Interpreter
