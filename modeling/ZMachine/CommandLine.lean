import ZMachine.Host.Terminal
import ZMachine.Interpreter.Run
import ZMachine.Text.Utf8

/-!
# The command line

The program takes a story file and plays it on the terminal. A configuration file and a seed for the
random numbers may be given. `CommandLine.run` says what comes out of arguments, files and input, in
given surroundings.
-/

namespace ZMachine.CommandLine

/-- What the program gets from libraries and from the system. -/
structure Surroundings where
  deserialize : String → Option Config
  screen : Screen
  entropy : Entropy

inductive UsageError where
  | missingConfig
  | missingSeed
  | invalidSeed (text : String)
  | unexpected (argument : String)
  | noStory
  deriving DecidableEq, Repr

def UsageError.message : UsageError → String
  | missingConfig => "--config needs a file name"
  | missingSeed => "--seed needs a number"
  | invalidSeed text => "Invalid seed: " ++ text
  | unexpected argument => "Unexpected argument: " ++ argument
  | noStory => "No story file given"

structure Arguments where
  story : String
  config : Option String
  seed : Option UInt32
  deriving DecidableEq, Repr

/-- A number of 32 bits in decimal digits, perhaps with a plus sign. -/
def seedOf? (text : String) : Option UInt32 :=
  let digits : List Char :=
    match text.toList with
    | '+' :: rest => rest
    | cs => cs
  let n : Nat := digits.foldl (fun n c => n * 10 + (c.toNat - '0'.toNat)) 0
  if digits ≠ [] ∧ digits.all Char.isDigit ∧ n < UInt32.size then some (.ofNat n) else none

/-- Reads arguments behind those that gave what is known so far. -/
def readFrom (story config : Option String) (seed : Option UInt32) :
    List String → Except UsageError Arguments
  | [] =>
    match story with
    | some story => .ok { story, config, seed }
    | none => .error .noStory
  | "--config" :: path :: rest => readFrom story (some path) seed rest
  | ["--config"] => .error .missingConfig
  | "--seed" :: text :: rest =>
    match seedOf? text with
    | some n => readFrom story config (some n) rest
    | none => .error (.invalidSeed text)
  | ["--seed"] => .error .missingSeed
  | argument :: rest =>
    match story with
    | none => readFrom (some argument) config seed rest
    | some _ => .error (.unexpected argument)

inductive Refusal where
  | noArguments
  | usage (why : UsageError)
  | badConfig (path : String)
  | noStoryFile (path : String)
  | machine (why : MachineError)
  deriving DecidableEq, Repr

namespace Refusal

def code : Refusal → Nat
  | noArguments => 0
  | usage _ => 2
  | _ => 1

def complaint : Refusal → String
  | noArguments => ""
  | usage why => "Error: " ++ why.message ++ "\n"
  | badConfig path => "Error: Cannot use configuration file '" ++ path ++ "'\n"
  | noStoryFile path => "Error: Cannot read story file '" ++ path ++ "'\n"
  | machine why => "Error: " ++ why.message ++ "\n"

def usageText : String :=
  "gruesome - Z-Machine version 3 interpreter\n\n" ++
  "Usage: gruesome <story_file> [--config file.toml] [--seed N]\n\n" ++
  "Set RUST_LOG=debug to trace execution.\n"

def output : Refusal → String
  | noArguments => usageText
  | usage _ => usageText
  | _ => ""

end Refusal

def parse (args : List String) : Except Refusal Arguments :=
  if args = [] then .error .noArguments
  else
    match readFrom none none none args with
    | .ok arguments => .ok arguments
    | .error why => .error (.usage why)

def settings (around : Surroundings) (arguments : Arguments) (directory : Directory) :
    Except Refusal Config := do
  let config ←
    match arguments.config with
    | none => pure {}
    | some path =>
      match (directory.read? path).bind Text.ofUtf8? |>.bind
          (Config.parse around.deserialize) with
      | some config => pure config
      | none => throw (.badConfig path)
  match arguments.seed with
  | none => pure config
  | some _ => pure { config with interpreter := { config.interpreter with seed := arguments.seed } }

/-- The story ready to play, with nothing on standard input. -/
def start (around : Surroundings) (arguments : Arguments) (directory : Directory) :
    Except Refusal (Interpreter Terminal) := do
  let config ← settings around arguments directory
  match directory.read? arguments.story with
  | none => throw (.noStoryFile arguments.story)
  | some image =>
    let host := Terminal.opened config.terminal around.screen directory
    match Story.load image.toArray >>= fun story =>
        Interpreter.load story host config.interpreter around.entropy with
    | .ok s => pure s
    | .error why => throw (.machine why)

structure Exit where
  code : Nat
  output : String
  files : List (String × List UInt8)

def finish : EStateM.Result MachineError (Interpreter Terminal) (Option RunState) → Exit
  | .ok (some .quit) s =>
    { code := 0, output := s.host.written, files := s.host.directory.files }
  | .ok (some _) s =>
    { code := 0, output := s.host.written ++ "\n", files := s.host.directory.files }
  | .ok none s => { code := 1, output := s.host.written, files := s.host.directory.files }
  | .error _ s => { code := 1, output := s.host.written, files := s.host.directory.files }

/-- What the program does with its arguments, the files that it finds, and its standard input. -/
def run (around : Surroundings) (args : List String) (directory : Directory) (input : String) :
    Exit :=
  match parse args >>= fun arguments => start around arguments directory with
  | .error refusal =>
    { code := refusal.code, output := refusal.output, files := directory.files }
  | .ok s => finish (Interpreter.run { s with host.input := Text.lines input.toList })

end ZMachine.CommandLine
