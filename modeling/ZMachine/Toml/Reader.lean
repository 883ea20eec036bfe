/-!
# Reading TOML: characters

A reader takes what it knows from the front of the text, or fails and takes nothing.
-/

namespace ZMachine.Toml

abbrev Reader (α : Type) := StateT (List Char) Option α

namespace Reader

def satisfying (kind : Char → Bool) : Reader Char
  | c :: rest => if kind c then some (c, rest) else none
  | [] => none

def character (c : Char) : Reader Char :=
  satisfying (· == c)

def oneOf (cs : List Char) : Reader Char :=
  satisfying fun c => cs.contains c

def word (text : String) : Reader Unit :=
  fun input =>
    if text.toList.isPrefixOf input then some ((), input.drop text.length) else none

/-- All characters of some kind that come next. -/
def span (kind : Char → Bool) : Reader (List Char) :=
  fun input => some (input.takeWhile kind, input.dropWhile kind)

/-- Characters of some kind, at least one. -/
def spanSome (kind : Char → Bool) : Reader (List Char) := do
  let first ← satisfying kind
  let rest ← span kind
  pure (first :: rest)

/-- The item, or nothing if it does not come next. -/
def optional {α : Type} (item : Reader α) : Reader (Option α) :=
  fun input =>
    match item input with
    | some (a, rest) => some (some a, rest)
    | none => some (none, input)

/-- As many items as come next, up to a number. -/
def atMost {α : Type} (item : Reader α) : Nat → Reader (List α)
  | 0 => pure []
  | n + 1 => fun input =>
    match item input with
    | some (a, rest) => (atMost item n rest).map fun (as, rest) => (a :: as, rest)
    | none => some ([], input)

/-- As many items as come next. Each takes a character at least, so there are no more items than
characters. -/
def many {α : Type} (item : Reader α) : Reader (List α) :=
  fun input => atMost item input.length input

/-- The item over and over, with a separator between each two. -/
def separated {α β : Type} (item : Reader α) (separator : Reader β) : Reader (List α) := do
  match ← optional item with
  | none => pure []
  | some first => do
    let rest ← many (separator *> item)
    pure (first :: rest)

def atEnd : Reader Unit :=
  fun input => if input.isEmpty then some ((), input) else none

end Reader

def isSpace (c : Char) : Bool :=
  c == ' ' || c == '\t'

/-- A character that may stand in a comment, and in text: no control character but the tab. -/
def isPlain (c : Char) : Bool :=
  c == '\t' || (0x20 ≤ c.toNat && c.toNat != 0x7F)

namespace Reader

def spaces : Reader Unit := do
  let _ ← span isSpace
  pure ()

def newLine : Reader Unit :=
  word "\n" <|> word "\r\n"

def comment : Reader Unit := do
  let _ ← character '#'
  let _ ← span isPlain
  pure ()

/-- Spaces and a comment, up to the end of the line. -/
def restOfLine : Reader Unit := do
  spaces
  let _ ← optional comment
  newLine <|> atEnd

def blanks : Reader Unit := do
  let _ ← many ((do let _ ← spanSome isSpace; pure ()) <|> newLine <|> comment)
  pure ()

end Reader

end ZMachine.Toml
