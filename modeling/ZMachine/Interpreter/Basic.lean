import ZMachine.Config.Basic
import ZMachine.Host.Basic
import ZMachine.Machine.InputLine
import ZMachine.Machine.Property
import ZMachine.Machine.Routine
import ZMachine.Machine.Variable
import ZMachine.Random
import ZMachine.Snapshot.Basic

/-!
# The interpreter

A machine together with its host, the dictionary, the random numbers, the output streams and the
count of instructions. Operations run in `Play`, which keeps the state on an error as it was when
the error arose.
-/

namespace ZMachine

/-- What an instruction did to the flow of control. -/
inductive Outcome where
  | continued
  | branched
  | called
  | returned (value : UInt16)
  | waiting
  | quit
  deriving DecidableEq, Repr

inductive RunState where
  | running
  /-- The story waits for a line for these buffers. -/
  | waiting (text parse : UInt16)
  | quit
  deriving DecidableEq, Repr

structure Streams where
  screen : Bool := true
  /-- Tables in memory that take the output, the innermost first. -/
  tables : List UInt16 := []
  deriving DecidableEq, Repr

structure Interpreter (H : Type) where
  machine : Machine
  host : H
  dictionary : Dictionary
  random : Random
  state : RunState
  streams : Streams
  currentPc : Nat
  count : Nat
  limit : Option Nat

abbrev Play (H α : Type) := EStateM MachineError (Interpreter H) α

namespace Interpreter

variable {H : Type} {α : Type}

def onMachine (operation : MachineM α) : Play H α :=
  fun s =>
    match operation s.machine with
    | .ok a machine => .ok a { s with machine }
    | .error e machine => .error e { s with machine }

/-- Something read off the machine. -/
def ask (f : Machine → Except MachineError α) : Play H α :=
  onMachine (Machine.query f)

def onHost (operation : H → α × H) : Play H α :=
  fun s =>
    let (a, host) := operation s.host
    .ok a { s with host }

/-- Something told to the host. -/
def tellHost (operation : H → H) : Play H Unit :=
  modify fun s => { s with host := operation s.host }

/-- Fails because of the instruction that is being executed. -/
def refuse (why : DecodeFault) : Play H α :=
  fun s => .error (.undecodable s.currentPc why) s

def selected : Play H Streams :=
  fun s => .ok s.streams s

/-- A random number, as the instruction `random` gives it. -/
def roll (range : Int) : Play H UInt16 :=
  fun s =>
    let (value, random) := s.random.roll range
    .ok value { s with random }

def await (text parse : UInt16) : Play H Unit :=
  modify fun s => { s with state := .waiting text parse }

def flags1 (s : Interpreter H) : UInt8 :=
  s.machine.memory.byte Header.flags1Address

/-- The number by which the interpreter shows itself to the story. -/
def interpreterNumber : UInt8 := 6

def interpreterVersion : UInt8 := 0x47

/-- Flags 1 with a status line available, and splitting the screen if the host can do it. -/
def sessionFlags1 (flags1 : UInt8) (canSplit : Bool) : UInt8 :=
  (flags1 &&& 0xCF) ||| (if canSplit then 0x20 else 0)

/-- Fills in the header bytes that belong to the interpreter. -/
def prepareHeader [Host H] : Play H Unit := do
  let flags1 ← ask (Machine.inspect Header.flags1Address)
  let s ← get
  onMachine do
    Machine.poke Header.flags1Address (sessionFlags1 flags1 (Host.supportsSplit s.host))
    Machine.poke Header.interpreterNumberAddress interpreterNumber
    Machine.poke Header.interpreterVersionAddress interpreterVersion
    Machine.poke Header.standardRevisionAddress 1
    Machine.poke (Header.standardRevisionAddress + 1) 1

def initialRandom (config : InterpreterConfig) (entropy : Entropy) : Random :=
  match config.seed with
  | some seed => .predictable seed entropy
  | none => .uniform entropy

/-- An interpreter at the start of a story. -/
def load [Host H] (story : Story) (host : H) (config : InterpreterConfig) (entropy : Entropy) :
    Except MachineError (Interpreter H) := do
  if config.strictVersion ∧ story.header.version ≠ 3 then
    throw (.unsupportedVersion story.header.version)
  else
    let dictionary ← Dictionary.read story.image story.header.dictionary.toNat
    let machine := Machine.start story
    let s : Interpreter H :=
      { machine, host, dictionary
        random := initialRandom config entropy
        state := .running
        streams := {}
        currentPc := machine.pc
        count := 0
        limit := config.limit? }
    match prepareHeader s with
    | .ok _ s => pure { s with host := Host.restarted s.host }
    | .error e _ => throw e

def restart [Host H] : Play H Unit := do
  onMachine Machine.restart
  prepareHeader
  modify fun s => { s with streams := {}, state := .running }
  tellHost Host.restarted

end Interpreter

end ZMachine
