import ZMachine.Machine.Basic

/-!
# Variables

Variable 0 is the evaluation stack, 1 to 15 are the locals of the routine, and the others are
globals, which lie in memory. Instructions that name a variable by an operand reach the stack in
place, without popping or pushing. A local that the routine has not declared reads as zero and
ignores what is written to it.
-/

namespace ZMachine.Machine

/-- The evaluation stack of the running routine, its top first. -/
def stack (m : Machine) : List UInt16 :=
  m.frames.innermost.stack

def withStack (m : Machine) (stack : List UInt16) : Machine :=
  { m with frames := { m.frames with innermost := { m.frames.innermost with stack } } }

def push (value : UInt16) : MachineM Unit :=
  fun m =>
    if stackLimit ≤ m.stack.length then .error (.stackOverflow m.pc) m
    else .ok () (m.withStack (value :: m.stack))

def pushAll : List UInt16 → MachineM Unit
  | [] => pure ()
  | value :: rest => do
    push value
    pushAll rest

def pop : MachineM UInt16 :=
  fun m =>
    match m.stack with
    | [] => .error (.stackUnderflow m.pc) m
    | value :: rest => .ok value (m.withStack rest)

def peek (m : Machine) : Except MachineError UInt16 :=
  match m.stack with
  | [] => .error (.stackUnderflow m.pc)
  | value :: _ => .ok value

def replaceTop (value : UInt16) : MachineM Unit :=
  fun m =>
    match m.stack with
    | [] => .error (.stackUnderflow m.pc) m
    | _ :: rest => .ok () (m.withStack (value :: rest))

/-- A local, counted from 1; there is no local 0. -/
def readLocal (number : Nat) (m : Machine) : Except MachineError UInt16 :=
  if number = 0 then .error .fault else .ok (m.frames.innermost.locals.getD (number - 1) 0)

def withLocals (m : Machine) (locals : List UInt16) : Machine :=
  { m with frames := { m.frames with innermost := { m.frames.innermost with locals } } }

def writeLocal (number : Nat) (value : UInt16) : MachineM Unit :=
  fun m =>
    if number = 0 then .error .fault m
    else .ok () (m.withLocals (m.frames.innermost.locals.set (number - 1) value))

/-- Where the global variable of a number from 16 on lies. -/
def globalAddress (m : Machine) (number : UInt8) : Nat :=
  m.story.header.globals.toNat + (number.toNat - 16) * 2

def readGlobal (number : UInt8) (m : Machine) : Except MachineError UInt16 :=
  if number < 16 then .error (.undecodable m.pc (.notGlobal number.toNat))
  else do
    let index ← subtract number.toNat 16
    m.wordAt (m.story.header.globals.toNat + index * 2)

def writeGlobal (number : UInt8) (value : UInt16) : MachineM Unit := do
  let m ← get
  if number < 16 then throw (.undecodable m.pc (.notGlobal number.toNat))
  else
    let index ← query fun _ => subtract number.toNat 16
    writeWord (m.story.header.globals.toNat + index * 2) value

/-- The value of a variable; that of variable 0 is popped. -/
def readVariable (number : UInt8) : MachineM UInt16 :=
  if number = 0 then pop
  else if number < 16 then query (readLocal number.toNat)
  else query (readGlobal number)

/-- Sets a variable; a value for variable 0 is pushed. -/
def writeVariable (number : UInt8) (value : UInt16) : MachineM Unit :=
  if number = 0 then push value
  else if number < 16 then writeLocal number.toNat value
  else writeGlobal number value

/-- The value of a variable, which stays on the stack if it is there. -/
def readInPlace (number : UInt8) (m : Machine) : Except MachineError UInt16 :=
  if number = 0 then m.peek
  else if number < 16 then m.readLocal number.toNat
  else m.readGlobal number

/-- Sets a variable; a value for variable 0 takes the place of the top of the stack. -/
def writeInPlace (number : UInt8) (value : UInt16) : MachineM Unit :=
  if number = 0 then replaceTop value
  else if number < 16 then writeLocal number.toNat value
  else writeGlobal number value

end ZMachine.Machine
