import ZMachine.CommandLine
import ZMachine.Config.Reading

/-!
# The program

Plays a story with the real terminal and the real files. Each instruction is executed on what is
known of them; when it turns out to need a line that has not been read, a file that has not been
looked at, or a file that cannot be written, that is mended and the instruction is executed anew.
-/

open ZMachine

namespace ZMachine.Program

/-- What is known of the world outside. -/
structure World where
  ended : Bool := false
  /-- Paths whose files have been looked at. -/
  known : List String
  /-- Paths whose files cannot be written. -/
  closed : List String := []
  shown : Nat := 0

def readFile? (path : String) : IO (Option (List UInt8)) := do
  try
    let bytes ← IO.FS.readBinFile path
    pure (some bytes.toList)
  catch _ => pure none

def writeFile? (path : String) (bytes : List UInt8) : IO Bool := do
  try
    IO.FS.writeBinFile path (ByteArray.mk bytes.toArray)
    pure true
  catch _ => pure false

/-- The files of some paths, as far as they exist. -/
def loadFiles (paths : List String) : IO (List (String × List UInt8)) := do
  let found ← paths.mapM fun path => do
    let bytes ← readFile? path
    pure (bytes.map fun bytes => (path, bytes))
  pure (found.filterMap id)

/-- A directory in which every path names a file of its own, but for the closed ones. -/
def directoryOf (files : List (String × List UInt8)) (closed : List String) : Directory :=
  { files, resolve := fun path => if path ∈ closed then none else some path }

def changed (before after : Directory) : List (String × List UInt8) :=
  after.files.filter fun (name, bytes) => before.files.lookup name ≠ some bytes

def display (world : World) (text : String) : IO World := do
  let stdout ← IO.getStdout
  stdout.putStr (String.ofList (text.toList.drop world.shown))
  stdout.flush
  pure { world with shown := max world.shown text.length }

/-- Writes files until one cannot be written, which is given back. -/
def writeAll : List (String × List UInt8) → IO (Option String)
  | [] => pure none
  | (path, bytes) :: rest => do
    if ← writeFile? path bytes then writeAll rest else pure (some path)

/-- Plays on from a state between two instructions. -/
partial def play (world : World) (s : Interpreter Terminal) :
    IO (EStateM.Result MachineError (Interpreter Terminal) (Option RunState)) := do
  let directory := directoryOf s.host.directory.files world.closed
  let s := { s with host := { s.host with starved := false, sought := [], directory } }
  let result := Interpreter.runFor 1 s
  let after := match result with
    | .ok _ t => t.host
    | .error _ t => t.host
  let world ← display world after.written
  let unknown := after.sought.filter fun path => path ∉ world.known
  if after.starved && !world.ended then
    let line ← (← IO.getStdin).getLine
    if line.isEmpty then play { world with ended := true } s
    else play world { s with host := { s.host with input := s.host.input ++ [line.toList] } }
  else if !unknown.isEmpty then
    let files ← loadFiles unknown
    let directory := { s.host.directory with files := s.host.directory.files ++ files }
    play { world with known := unknown ++ world.known } { s with host := { s.host with directory } }
  else
    match ← writeAll (changed s.host.directory after.directory) with
    | some path => play { world with closed := path :: world.closed } s
    | none =>
      let written := after.directory.files.map (·.1)
      let world := { world with known := written ++ world.known }
      match result with
      | .ok none t => play world t
      | .ok (some state) t => pure (.ok (some state) t)
      | .error e t => pure (.error e t)

/-- Numbers that a generator gives one after the other. -/
def seedsFrom (generator : StdGen) : Nat → UInt32
  | 0 => .ofNat (randNat generator 0 (UInt32.size - 1)).1
  | n + 1 => seedsFrom (randNat generator 0 (UInt32.size - 1)).2 n

/-- A text in reverse video at the top left, after which the cursor is where it was. -/
def banner (text : String) : String :=
  "\x1b7\x1b[1;1H\x1b[7m" ++ text ++ "\x1b[0m\x1b8"

def surroundings : IO CommandLine.Surroundings := do
  let interactive ← (← IO.getStdout).isTty
  let columns := (← IO.getEnv "COLUMNS").bind String.toNat?
  let seed ← IO.rand 0 (UInt32.size - 1)
  pure { deserialize := Config.ofToml
         screen := { interactive, columns := fun _ => columns, banner }
         entropy := { supply := seedsFrom (mkStdGen seed) } }

def complaint : EStateM.Result MachineError (Interpreter Terminal) (Option RunState) → String
  | .ok _ _ => ""
  | .error e _ => "\nError during execution: " ++ e.message ++ "\n"

end ZMachine.Program

open ZMachine.Program

def main (args : List String) : IO UInt32 := do
  let refuse (why : CommandLine.Refusal) : IO UInt32 := do
    (← IO.getStdout).putStr why.output
    (← IO.getStderr).putStr why.complaint
    pure (.ofNat why.code)
  match CommandLine.parse args with
  | .error why => refuse why
  | .ok arguments =>
    let around ← surroundings
    let paths := arguments.story :: arguments.config.toList
    let directory := directoryOf (← loadFiles paths) []
    match CommandLine.start around arguments directory with
    | .error why => refuse why
    | .ok s =>
      let logs := s.host.transcript.toList
      let directory := directoryOf (directory.files ++ (← loadFiles logs)) []
      let s := { s with host := { s.host with directory } }
      let result ← play { known := paths ++ logs } s
      let exit := CommandLine.finish result
      let shown := match result with
        | .ok _ t => t.host.written.length
        | .error _ t => t.host.written.length
      (← IO.getStdout).putStr (String.ofList (exit.output.toList.drop shown))
      (← IO.getStderr).putStr (complaint result)
      pure (.ofNat exit.code)
