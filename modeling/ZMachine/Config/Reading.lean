import ZMachine.Config.Basic
import ZMachine.Toml.Document

/-!
# Settings in TOML

A deserializer for the program. A configuration file is a TOML document with the tables
`interpreter` and `terminal`. Settings that are missing have their defaults and unknown ones are
ignored, but a value of the wrong kind or out of range spoils the file. An array in the place of a
table gives the settings in their order.
-/

namespace ZMachine.Config

open Toml (Node Table)

/-- The settings of a section, by name and by place in the order. A date has no settings. -/
def settingsOf : Node → Option ((String × Nat) → Option Node)
  | .table _ entries => some fun (name, _) => Table.get? entries name
  | .array items => some fun (_, place) => items[place]?
  | .tables elements =>
    some fun (_, place) => elements.reverse[place]?.map (Node.table .headed)
  | .date => some fun _ => none
  | _ => none

def readSeed : Option Node → Option (Option UInt32)
  | none => some none
  | some (.integer n) => if 0 ≤ n ∧ n < UInt32.size then some (some (.ofNat n.toNat)) else none
  | some _ => none

def readLimit : Option Node → Option Nat
  | none => some 0
  | some (.integer n) => if 0 ≤ n then some n.toNat else none
  | some _ => none

def readFlag (default : Bool) : Option Node → Option Bool
  | none => some default
  | some (.boolean b) => some b
  | some _ => none

def readPath : Option Node → Option (Option String)
  | none => some none
  | some (.text path) => some (some path)
  | some _ => none

def readInterpreter (section? : Option Node) : Option InterpreterConfig := do
  match section? with
  | none => pure {}
  | some node =>
    let setting ← settingsOf node
    let seed ← readSeed (setting ("seed", 0))
    let instructionLimit ← readLimit (setting ("instruction_limit", 1))
    let strictVersion ← readFlag false (setting ("strict_version", 2))
    pure { seed, instructionLimit, strictVersion }

def readTerminal (section? : Option Node) : Option TerminalConfig := do
  match section? with
  | none => pure {}
  | some node =>
    let setting ← settingsOf node
    let statusLine ← readFlag true (setting ("status_line", 0))
    let transcript ← readPath (setting ("transcript", 1))
    pure { statusLine, transcript }

def ofToml (text : String) : Option Config := do
  let table ← Toml.parse text
  let interpreter ← readInterpreter (Table.get? table "interpreter")
  let terminal ← readTerminal (Table.get? table "terminal")
  pure { interpreter, terminal }

end ZMachine.Config
