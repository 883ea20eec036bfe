import ZMachine.Config.Basic
import ZMachine.Host.Basic
import ZMachine.Host.Directory
import ZMachine.Text.Blank
import ZMachine.Text.Line

/-!
# A host on standard input and output

Output is written as it comes. Input is taken line by line and, unless somebody at a screen sees it
being typed, written too. Games are saved in files whose names are asked for. The transcript is
appended to a file if one is configured. On a screen there may be a status line, but no upper window.
-/

namespace ZMachine

/-- Where standard output goes. -/
structure Screen where
  /-- It goes to a screen, and not to a file or another program. -/
  interactive : Bool
  /-- The width of the screen, which may change from one status line to the next, if it is found. -/
  columns : Nat → Option Nat
  /-- What has to be written to show a text at the top of the screen. -/
  banner : String → String

namespace Screen

def width (screen : Screen) (asked : Nat) : Nat :=
  (screen.columns asked).getD 80

/-- The location on the left and the status on the right, with a blank on both sides. -/
def statusLine (width : Nat) (location : String) (status : Status) : String :=
  let left := " " ++ location
  let right := status.describe
  let gap := width - (left.length + right.length + 1)
  left ++ String.ofList (List.replicate gap ' ') ++ right ++ " "

/-- What is written for a status line, after so many others. -/
def draw (screen : Screen) (asked : Nat) (location : String) (status : Status) : String :=
  screen.banner (statusLine (screen.width asked) location status)

/-- There is a status line if it is wanted and there is a screen for it. -/
def shows (screen : Screen) (config : TerminalConfig) : Bool :=
  config.statusLine && screen.interactive

end Screen

structure Terminal where
  screen : Screen
  statusLine : Bool
  /-- The lines of standard input not yet read, with their line ends. -/
  input : List (List Char)
  /-- All that has been written to standard output. -/
  written : String := ""
  directory : Directory
  transcript : Option String := none
  /-- Status lines that have been drawn. -/
  drawn : Nat := 0
  /-- A line was asked for and there was none. -/
  starved : Bool := false
  /-- The paths of the files that were looked for, the latest first. -/
  sought : List String := []

namespace Terminal

/-- A terminal that has not been used, with nothing on standard input. -/
def opened (config : TerminalConfig) (screen : Screen) (directory : Directory) : Terminal :=
  { screen, statusLine := screen.shows config, input := [], directory
    transcript := config.transcript }

def defaultName : String := "gruesome.sav"

def write (t : Terminal) (text : String) : Terminal :=
  { t with written := t.written ++ text }

def takeLine (t : Terminal) : Option (List Char) × Terminal :=
  match t.input with
  | [] => (none, { t with starved := true })
  | line :: rest => (some (Text.withoutEnd line), { t with input := rest })

/-- Appends to the transcript; a file that cannot be written is given up. -/
def appendTranscript (t : Terminal) (text : String) : Terminal :=
  match t.transcript with
  | none => t
  | some path =>
    match t.directory.append? path text.toUTF8.toList with
    | some directory => { t with directory }
    | none => { t with transcript := none }

def print (t : Terminal) (text : String) (toTranscript : Bool) : Terminal :=
  let t := t.write text
  if toTranscript then t.appendTranscript text else t

/-- Takes a line, writes it out if nobody has seen it, and cuts it to a number of characters. -/
def read (t : Terminal) (length : Nat) : Option String × Terminal :=
  match t.takeLine with
  | (none, t) => (none, t)
  | (some line, t) =>
    (some (String.ofList (line.take length)),
      if t.screen.interactive then t else t.write (String.ofList line ++ "\n"))

/-- Asks for the name of a file; an empty answer means the default name. -/
def askName (t : Terminal) (verb : String) : Option String × Terminal :=
  match (t.write (verb ++ " file name [" ++ defaultName ++ "]: ")).takeLine with
  | (none, t) => (none, t)
  | (some answer, t) =>
    let name := Text.trimmed answer
    (some (if name = [] then defaultName else String.ofList name), t)

def save (t : Terminal) (bytes : List UInt8) : Bool × Terminal :=
  match t.askName "Save" with
  | (none, t) => (false, t)
  | (some path, t) =>
    match t.directory.write? path bytes with
    | some directory => (true, { t with directory })
    | none => (false, t)

def restore (t : Terminal) : Option (List UInt8) × Terminal :=
  match t.askName "Restore" with
  | (none, t) => (none, t)
  | (some path, t) => (t.directory.read? path, { t with sought := path :: t.sought })

def updateStatus (t : Terminal) (location : String) (status : Status) : Terminal :=
  if t.statusLine then
    { t.write (t.screen.draw t.drawn location status) with drawn := t.drawn + 1 }
  else t

end Terminal

instance : Host Terminal where
  print := Terminal.print
  read := Terminal.read
  save := Terminal.save
  restore := Terminal.restore
  restarted t := t
  updateStatus := Terminal.updateStatus
  selectWindow t _ := t
  splitWindow t _ := t
  supportsSplit _ := false
  setFixedPitch t _ := t

end ZMachine
