import ZMachine.Machine.Variable

/-!
# Routines

A routine begins with the number of its locals and their defaults, a word each; arguments replace
the first defaults. Its frame keeps where the caller goes on and which variable gets the result.
-/

namespace ZMachine.Machine

def localDefaults (m : Machine) (routine count : Nat) : List UInt16 :=
  (List.range count).map fun i => m.memory.word (routine + 1 + 2 * i)

/-- The arguments in place of the first defaults; surplus arguments are dropped. -/
def overrideLocals : List UInt16 → List UInt16 → List UInt16
  | [], _ => []
  | defaults, [] => defaults
  | _ :: defaults, argument :: arguments => argument :: overrideLocals defaults arguments

def enter (routine : Nat) (arguments : List UInt16) (store : Option UInt8) : MachineM Unit :=
  fun m =>
    let count := (m.memory.byte routine).toNat
    if depthLimit < m.frames.depth + 1 then .error (.stackOverflow m.pc) m
    else if localsLimit < count then
      .error (.undecodable m.pc (.tooManyLocals routine count localsLimit)) m
    else if addressLimit ≤ routine + 1 + 2 * count then .error .fault m
    else
      let frame : Frame :=
        { returnPc := m.pc
          store
          locals := overrideLocals (m.localDefaults routine count) arguments
          stack := [] }
      .ok () { m with
        frames := { innermost := frame, callers := m.frames.innermost :: m.frames.callers }
        pc := routine + 1 + 2 * count }

def leave : MachineM Frame :=
  fun m =>
    match m.frames.callers with
    | [] => .error (.undecodable m.pc .topLevelReturn) m
    | caller :: callers =>
      .ok m.frames.innermost { m with
        frames := { innermost := caller, callers }
        pc := m.frames.innermost.returnPc }

/-- The address of a routine by its packed address, which counts in words. -/
def routineAddress (packed : UInt16) (m : Machine) : Except MachineError Nat :=
  let address := packed.toNat * 2
  if m.memory.size ≤ address then .error (.readOutside address) else .ok address

def callPacked (packed : UInt16) (arguments : List UInt16) (store : Option UInt8) :
    MachineM Unit := do
  let routine ← query (routineAddress packed)
  enter routine arguments store

/-- Returns from the running routine; the caller's variable gets the value. -/
def giveBack (value : UInt16) : MachineM Unit := do
  let frame ← leave
  match frame.store with
  | some number => writeVariable number value
  | none => pure ()

end ZMachine.Machine
