import ZMachine.Toml.Table
import ZMachine.Toml.Reader

/-!
# Reading TOML: numbers and dates

Integers have 64 bits; underscores may stand between digits. Of floats and dates only the form is
read, since no setting takes one. A float too large for double precision is refused.
-/

namespace ZMachine.Toml.Reader

def digitValue (c : Char) : Nat :=
  if c.isDigit then c.toNat - '0'.toNat
  else if 'a' ≤ c ∧ c ≤ 'f' then c.toNat - 'a'.toNat + 10
  else c.toNat - 'A'.toNat + 10

/-- The number that digits of a base stand for. -/
def numberOf (base : Nat) (digits : List Char) : Nat :=
  digits.foldl (fun n c => n * base + digitValue c) 0

def isHexDigit (c : Char) : Bool :=
  c.isDigit || ('a' ≤ c && c ≤ 'f') || ('A' ≤ c && c ≤ 'F')

/-- Digits of some kind with single underscores between them. -/
def digits (kind : Char → Bool) : Reader (List Char) := do
  let first ← satisfying kind
  let rest ← many (satisfying kind <|> character '_' *> satisfying kind)
  pure (first :: rest)

/-- A decimal number without zeros in front. -/
def decimalDigits : Reader (List Char) := do
  let ds ← digits Char.isDigit
  match ds with
  | '0' :: _ :: _ => failure
  | _ => pure ds

def sign : Reader Bool := do
  let s ← optional (oneOf ['+', '-'])
  pure (s == some '-')

/-- The integer, if 64 bits hold it. -/
def integerNode (n : Int) : Reader Node :=
  if Int64.minValue.toInt ≤ n ∧ n ≤ Int64.maxValue.toInt then pure (.integer n) else failure

/-- Digits of a base behind the letters that announce it. -/
def based (mark : String) (base : Nat) (kind : Char → Bool) : Reader Node := do
  word mark
  let ds ← digits kind
  integerNode (numberOf base ds)

def decimal : Reader Node := do
  let negative ← sign
  let ds ← decimalDigits
  let n : Int := numberOf 10 ds
  integerNode (if negative then -n else n)

def integer : Reader Node :=
  based "0x" 16 isHexDigit <|> based "0o" 8 (fun c => '0' ≤ c && c ≤ '7') <|>
    based "0b" 2 (fun c => c == '0' || c == '1') <|> decimal

/-- From here on a number is closer to `2 ^ 1024` than to the largest float. -/
def floatBound : Nat := 1 <<< 1024 - 1 <<< 970

/-- The number `mantissa * 10 ^ exponent` is too large for a float. -/
def overflows (mantissa : Nat) (exponent : Int) : Bool :=
  let magnitude : Int := (Nat.toDigits 10 mantissa).length + exponent
  if mantissa = 0 ∨ magnitude < 300 then false
  else if 320 < magnitude then true
  else if 0 ≤ exponent then floatBound ≤ mantissa * Nat.pow 10 exponent.toNat
  else floatBound * Nat.pow 10 exponent.natAbs ≤ mantissa

def fraction : Reader (List Char) := do
  let _ ← character '.'
  digits Char.isDigit

def power : Reader Int := do
  let _ ← oneOf ['e', 'E']
  let negative ← sign
  let ds ← digits Char.isDigit
  let n : Int := numberOf 10 ds
  pure (if negative then -n else n)

/-- A decimal number with a fraction, a power of ten, or both. -/
def finiteFloat : Reader Node := do
  let negative ← sign
  let whole ← decimalDigits
  let part ← optional fraction
  let ten ← optional power
  if part.isNone ∧ ten.isNone then failure
  else
    let part := part.getD []
    if negative = false ∧ overflows (numberOf 10 (whole ++ part)) (ten.getD 0 - part.length) then
      failure
    else pure .float

def specialFloat : Reader Node := do
  let _ ← sign
  word "inf" <|> word "nan"
  pure .float

/-- So many digits, for a number in a range. -/
def fixedDigits (count least greatest : Nat) : Reader Nat := do
  let ds ← atMost (satisfying Char.isDigit) count
  let n := numberOf 10 ds
  if ds.length = count ∧ least ≤ n ∧ n ≤ greatest then pure n else failure

def daysIn (year month : Nat) : Nat :=
  if month = 2 then
    if year % 4 = 0 ∧ (year % 100 ≠ 0 ∨ year % 400 = 0) then 29 else 28
  else if month = 4 ∨ month = 6 ∨ month = 9 ∨ month = 11 then 30
  else 31

def fullDate : Reader Unit := do
  let year ← fixedDigits 4 0 9999
  let _ ← character '-'
  let month ← fixedDigits 2 1 12
  let _ ← character '-'
  let _ ← fixedDigits 2 1 (daysIn year month)
  pure ()

def clockTime : Reader Unit := do
  let _ ← fixedDigits 2 0 23
  let _ ← character ':'
  let _ ← fixedDigits 2 0 59
  let _ ← character ':'
  let _ ← fixedDigits 2 0 60
  let _ ← optional (character '.' *> spanSome Char.isDigit)
  pure ()

def hoursMinutes : Reader Unit := do
  let _ ← oneOf ['+', '-']
  let _ ← fixedDigits 2 0 23
  let _ ← character ':'
  let _ ← fixedDigits 2 0 59
  pure ()

def zone : Reader Unit :=
  (do let _ ← oneOf ['Z', 'z']; pure ()) <|> hoursMinutes

/-- The time of a day behind the date, perhaps with its distance from universal time. -/
def timeOfDay : Reader Unit := do
  let _ ← oneOf ['T', 't', ' ']
  clockTime
  let _ ← optional zone
  pure ()

def date : Reader Node := do
  (do fullDate; let _ ← optional timeOfDay; pure ()) <|> clockTime
  pure .date

end ZMachine.Toml.Reader
