import ZMachine.Toml.Number

/-!
# Reading TOML: text

Text stands between double quotes, where a backslash begins an escape, or between single quotes,
where it does not; three quotes enclose text of several lines.
-/

namespace ZMachine.Toml.Reader

def doubleQuote : Char := '\x22'

def singleQuote : Char := '\x27'

def backslash : Char := '\x5c'

/-- The character of a code point in so many hexadecimal digits. -/
def codePoint (count : Nat) : Reader Char := do
  let ds ← atMost (satisfying isHexDigit) count
  let n := numberOf 16 ds
  if ds.length = count ∧ n.isValidChar then pure (Char.ofNat n) else failure

/-- What a backslash and the letter behind it stand for. -/
def escape : Reader Char := do
  let _ ← character backslash
  let c ← satisfying fun _ => true
  if c = 'b' then pure '\x08'
  else if c = 't' then pure '\t'
  else if c = 'n' then pure '\n'
  else if c = 'f' then pure '\x0c'
  else if c = 'r' then pure '\r'
  else if c = doubleQuote ∨ c = backslash then pure c
  else if c = 'u' then codePoint 4
  else if c = 'U' then codePoint 8
  else failure

/-- A character between double quotes that is no escape. -/
def isUnescaped (c : Char) : Bool :=
  isPlain c && c != doubleQuote && c != backslash

def basicText : Reader String := do
  let _ ← character doubleQuote
  let cs ← many (satisfying isUnescaped <|> escape)
  let _ ← character doubleQuote
  pure (String.ofList cs)

/-- A character between single quotes. -/
def isLiteral (c : Char) : Bool :=
  isPlain c && c != singleQuote

def literalText : Reader String := do
  let _ ← character singleQuote
  let cs ← span isLiteral
  let _ ← character singleQuote
  pure (String.ofList cs)

/-- A line end that a backslash takes away, together with the blanks behind it. -/
def joinedLines : Reader Unit := do
  let _ ← character backslash
  spaces
  newLine
  let _ ← many ((do let _ ← spanSome isSpace; pure ()) <|> newLine)
  pure ()

/-- One or two quotes that something else follows. -/
def loneQuotes (quote : Char) : Reader (List Char) :=
  fun input =>
    let run := input.takeWhile (· == quote)
    if run.length = 1 ∨ run.length = 2 then some (run, input.drop run.length) else none

/-- Three quotes, with up to two more in front that belong to the text. -/
def closingQuotes (quote : Char) : Reader (List Char) :=
  fun input =>
    let run := input.takeWhile (· == quote)
    if 3 ≤ run.length ∧ run.length ≤ 5 then some (run.drop 3, input.drop run.length) else none

/-- Text of several lines between three quotes each; a line end right behind the first ones does
not belong to it. -/
def longText (quote : Char) (piece : Reader (List Char)) : Reader String := do
  word (String.ofList [quote, quote, quote])
  let _ ← optional newLine
  let pieces ← many (piece <|> loneQuotes quote)
  let rest ← closingQuotes quote
  pure (String.ofList (pieces.flatten ++ rest))

/-- A line end in a text. -/
def lineEnd : Reader (List Char) := do
  newLine
  pure ['\n']

def longBasicText : Reader String :=
  longText doubleQuote
    (spanSome isUnescaped <|> (do joinedLines; pure []) <|> (do let c ← escape; pure [c]) <|>
      lineEnd)

def longLiteralText : Reader String :=
  longText singleQuote (spanSome isLiteral <|> lineEnd)

def text : Reader Node := do
  let t ← longBasicText <|> basicText <|> longLiteralText <|> literalText
  pure (.text t)

end ZMachine.Toml.Reader
