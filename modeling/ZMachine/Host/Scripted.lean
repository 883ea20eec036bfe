import ZMachine.Host.Basic

/-!
# A host that follows a script

Input comes from a list of lines, output is collected, and one saved game is kept. When the lines
run out there is no input until more are added.
-/

namespace ZMachine

structure Scripted where
  /-- Lines not yet read, the next one first. -/
  inputs : List String := []
  output : String := ""
  /-- The part of the output that was printed while transcripting was on. -/
  transcript : String := ""
  printCalls : Nat := 0
  saved : Option (List UInt8) := none
  saveSucceeds : Bool := true
  canSplit : Bool := false
  status : Option (String × Status) := none
  restarts : Nat := 0
  window : UInt16 := 0
  upperHeight : UInt16 := 0
  fixedPitch : Bool := false
  deriving DecidableEq, Repr

namespace Scripted

def pushInput (host : Scripted) (line : String) : Scripted :=
  { host with inputs := host.inputs ++ [line] }

def failSaves (host : Scripted) : Scripted :=
  { host with saveSucceeds := false }

/-- The collected output, which starts afresh. -/
def takeOutput (host : Scripted) : String × Scripted :=
  (host.output, { host with output := "" })

end Scripted

def cutLine (line : String) (length : Nat) : String :=
  String.ofList (line.toList.take length)

instance : Host Scripted where
  print host text transcript :=
    { host with
      printCalls := host.printCalls + 1
      output := host.output ++ text
      transcript := if transcript then host.transcript ++ text else host.transcript }
  read host length :=
    match host.inputs with
    | [] => (none, host)
    | line :: rest => (some (cutLine line length), { host with inputs := rest })
  save host bytes :=
    (host.saveSucceeds, if host.saveSucceeds then { host with saved := some bytes } else host)
  restore host := (host.saved, host)
  restarted host := { host with restarts := host.restarts + 1 }
  updateStatus host location status := { host with status := some (location, status) }
  selectWindow host window := { host with window }
  splitWindow host height := { host with upperHeight := height }
  supportsSplit host := host.canSplit
  setFixedPitch host fixedPitch := { host with fixedPitch }

end ZMachine
