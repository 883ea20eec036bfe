import ZMachine.Toml.Quotation

/-!
# Reading TOML: documents

A document is made of lines: a header opens a table, and a key with a value adds to the table opened
last.
-/

namespace ZMachine.Toml

namespace Reader

/-- Parts of a key at most, and one more than arrays and inline tables within each other. -/
def nestingLimit : Nat := 80

def isBareKey (c : Char) : Bool :=
  c.isAlphanum || c == '-' || c == '_'

def simpleKey : Reader String :=
  basicText <|> literalText <|> (do let cs ← spanSome isBareKey; pure (String.ofList cs))

/-- A dotted key: the path and the last part. -/
def key : Reader (List String × String) := do
  let parts ← separated (spaces *> simpleKey <* spaces) (character '.')
  match parts.reverse with
  | [] => failure
  | last :: path => if nestingLimit ≤ parts.length then failure else pure (path.reverse, last)

def boolean : Reader Node :=
  (do word "true"; pure (.boolean true)) <|> (do word "false"; pure (.boolean false))

def scalar : Reader Node :=
  text <|> boolean <|> date <|> finiteFloat <|> specialFloat <|> integer

def array (value : Reader Node) : Reader Node := do
  let _ ← character '['
  let items ← separated (blanks *> value <* blanks) (character ',')
  let _ ← if items.isEmpty then pure none else optional (character ',')
  blanks
  let _ ← character ']'
  pure (.array items)

def assignment (value : Reader Node) : Reader (List String × String × Node) := do
  let (path, last) ← key
  let _ ← character '='
  spaces
  let node ← value
  pure (path, last, node)

/-- A table between braces, all on one line. -/
def inlineTable (value : Reader Node) : Reader Node := do
  let _ ← character '\x7b'
  let pairs ← separated (assignment value <* spaces) (character ',')
  spaces
  let _ ← character '\x7d'
  match Table.assignAll [] pairs with
  | some table => pure (.table .inline table)
  | none => failure

/-- A value with at most so many arrays and inline tables within each other. -/
def value : Nat → Reader Node
  | 0 => scalar
  | depth + 1 => scalar <|> array (value depth) <|> inlineTable (value depth)

end Reader

inductive Line where
  | header (path : List String) (key : String)
  | repeatedHeader (path : List String) (key : String)
  | assignment (path : List String) (key : String) (node : Node)

namespace Reader

def repeatedHeader : Reader Line := do
  word "[["
  let (path, last) ← key
  word "]]"
  pure (.repeatedHeader path last)

def header : Reader Line := do
  word "["
  let (path, last) ← key
  word "]"
  pure (.header path last)

def assignmentLine : Reader Line := do
  let (path, last, node) ← assignment (value (nestingLimit - 1))
  pure (.assignment path last node)

def line : Reader Line :=
  (repeatedHeader <|> header <|> assignmentLine) <* restOfLine

/-- A line, or the end of one that means nothing. -/
def anyLine : Reader (Option Line) :=
  spaces *>
    ((do comment; newLine <|> atEnd; pure none) <|> (do newLine; pure none) <|>
      (do let l ← line; pure (some l)))

def byteOrderMark : Char := Char.ofNat 0xFEFF

def document : Reader (List Line) := do
  let _ ← optional (character byteOrderMark)
  let lines ← many anyLine
  spaces
  atEnd
  pure (lines.filterMap id)

end Reader

/-- A document read as far as some line, with the table that was opened last. -/
structure Builder where
  root : Table
  current : List String

namespace Builder

def add (b : Builder) : Line → Option Builder
  | .header path key =>
    (b.root.openTable path key).map fun root => { root, current := path ++ [key] }
  | .repeatedHeader path key =>
    (b.root.openNext path key).map fun root => { root, current := path ++ [key] }
  | .assignment path key node =>
    (b.root.within false (fun _ table => table.assign path key node) b.current false).map
      fun root => { b with root }

end Builder

def parse (text : String) : Option Table := do
  let (lines, _) ← Reader.document text.toList
  let b ← lines.foldlM Builder.add { root := [], current := [] }
  pure b.root

end ZMachine.Toml
