/-!
# Settings

What a configuration may say about the interpreter and the terminal. Settings come as the text of a
file; how a text spells settings is the business of a deserializer, which is a parameter here.
-/

namespace ZMachine

structure InterpreterConfig where
  /-- Makes random numbers predictable from the start. -/
  seed : Option UInt32 := none
  /-- Instructions that a run may execute; 0 for any number. -/
  instructionLimit : Nat := 0
  /-- Refuses stories of any version but 3. -/
  strictVersion : Bool := false
  deriving DecidableEq, Repr

def InterpreterConfig.limit? (config : InterpreterConfig) : Option Nat :=
  if config.instructionLimit = 0 then none else some config.instructionLimit

structure TerminalConfig where
  statusLine : Bool := true
  transcript : Option String := none
  deriving DecidableEq, Repr

structure Config where
  interpreter : InterpreterConfig := {}
  terminal : TerminalConfig := {}
  deriving DecidableEq, Repr

/-- The settings that a text spells. An empty path says that there is no transcript file. -/
def Config.parse (deserialize : String → Option Config) (text : String) : Option Config :=
  (deserialize text).map fun config =>
    if config.terminal.transcript = some "" then
      { config with terminal := { config.terminal with transcript := none } }
    else config

end ZMachine
