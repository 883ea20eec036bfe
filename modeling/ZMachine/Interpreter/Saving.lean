import ZMachine.Interpreter.Control

/-!
# Saving and restoring

A game is saved by the `save` instruction, through the host, or as a whole by whoever runs the
interpreter. A restored game keeps the transcript and fixed-pitch bits of the session that restores
it, and goes on as its head says.
-/

namespace ZMachine.Interpreter

variable {H : Type} [Host H]

def resumePoint : RunState → ResumePoint
  | .waiting text parse => .awaitingInput text parse
  | _ => .atPc

/-- The machine as it stands as a saved game that goes on at `pc` in the given way. -/
def encode (pc : Nat) (resume : ResumePoint) (m : Machine) : Except MachineError (List UInt8) := do
  let snapshot ← Snapshot.capture m pc resume
  snapshot.toBytes m.story

def saveState : Play H (List UInt8) := do
  let s ← get
  ask (encode s.machine.pc (resumePoint s.state))

/-- Takes over a saved state that belongs to the story; all tables are deselected. -/
def takeOver (snapshot : Snapshot) : Play H Unit := do
  onMachine (Machine.keepingSessionBits snapshot.apply)
  prepareHeader
  modify fun s =>
    { s with streams := { s.streams with tables := [] }, state := .running }

/-- Finishes the `save` instruction at the program counter as one that has worked. -/
def finishSave (inst : Instruction) : Play H Unit := do
  modify fun s =>
    { s with
      currentPc := s.machine.pc
      machine := { s.machine with pc := s.machine.pc + inst.size } }
  let _ ← branchIf inst true

/-- Goes on in a saved state that belongs to the story. -/
def resume (snapshot : Snapshot) (saveInstruction : Option Instruction) : Play H Unit := do
  takeOver snapshot
  match saveInstruction with
  | some inst => finishSave inst
  | none => pure ()
  match snapshot.head.resume with
  | .awaitingInput text parse => await text parse
  | _ => pure ()

def restoreState (bytes : List UInt8) : Play H Unit := do
  let snapshot ← ask (Snapshot.ofBytes bytes)
  let inst ← ask snapshot.unfinished
  resume snapshot inst

/-- The instruction `save`: branches if the host has kept the game. -/
def executeSave (inst : Instruction) : Play H Outcome := do
  let s ← get
  let bytes ← ask (encode s.currentPc .saveInstruction)
  let saved ← onHost fun host => Host.save host bytes
  branchIf inst saved

/-- The instruction `restore`: the story goes on behind its `save`, or takes the branch for a
failure if the host has no game or the game is refused. A fault is no refusal. -/
def executeRestore (inst : Instruction) : Play H Outcome := do
  match ← onHost Host.restore with
  | none => branchIf inst false
  | some bytes => fun s =>
    match restoreState bytes s with
    | .ok _ s => .ok .branched s
    | .error .fault s => .error .fault s
    | .error _ s => branchIf inst false s

end ZMachine.Interpreter
