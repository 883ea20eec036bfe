import ZMachine.Text.Lowercase
import ZMachine.ZString.Alphabet

/-!
# Text to Z-strings

A Z-string is a row of words of three Z-characters each; the last word has its highest bit set.
Letters outside the first alphabet are written with a shift for that letter alone, characters in no
alphabet with an escape. A dictionary key is the lower-case word cut or filled up to six
Z-characters.
-/

namespace ZMachine.ZString

/-- The place of a letter in an alphabet, as a Z-character. -/
def place? (alphabet : Alphabet) (c : Char) : Option ZChar :=
  (alphabet.letters.idxOf? c).map fun i => ZChar.ofNat (i + 6)

/-- The escape for a character that is in no alphabet. -/
def escaped (c : Char) : List ZChar :=
  let code := Zscii.ofChar c
  [ZChar.shiftPunctuation, ZChar.escape, ZChar.ofNat (code / 32), ZChar.ofNat code]

def encodeChar (c : Char) : List ZChar :=
  if c = ' ' then [ZChar.space]
  else if c = '\n' then [ZChar.shiftPunctuation, ZChar.newLine]
  else
    match place? .lower c, place? .upper c, place? .punctuation c with
    | some z, _, _ => [z]
    | none, some z, _ => [ZChar.shiftUpper, z]
    | none, none, some z => [ZChar.shiftPunctuation, z]
    | none, none, none => escaped c

def encodeChars (text : List Char) : List ZChar :=
  text.flatMap encodeChar

/-- The word of three Z-characters; `last` sets its highest bit. -/
def packWord (last : Bool) (a b c : ZChar) : UInt16 :=
  .ofNat ((if last then 0x8000 else 0) + (a.val * 32 + b.val) * 32 + c.val)

/-- Packs Z-characters three to a word and fills up the last word. -/
def packWords : List ZChar → List UInt16
  | [] => [packWord true ZChar.shiftPunctuation ZChar.shiftPunctuation ZChar.shiftPunctuation]
  | [a] => [packWord true a ZChar.shiftPunctuation ZChar.shiftPunctuation]
  | [a, b] => [packWord true a b ZChar.shiftPunctuation]
  | [a, b, c] => [packWord true a b c]
  | a :: b :: c :: d :: rest => packWord false a b c :: packWords (d :: rest)

/-- Z-characters with as many shifts behind them as fill up the last word. -/
def filled (zchars : List ZChar) : List ZChar :=
  zchars ++ List.replicate (if zchars = [] then 3 else (3 - zchars.length % 3) % 3)
    ZChar.shiftPunctuation

/-- The words of Z-characters that fill them, three to a word. -/
def packTriples : List ZChar → Except MachineError (List UInt16)
  | [] => pure []
  | z :: zchars => do
    let triple := (z :: zchars).take 3
    let rest := zchars.drop 2
    let a ← present triple[0]?
    let b ← present triple[1]?
    let c ← present triple[2]?
    let words ← packTriples rest
    pure (packWord rest.isEmpty a b c :: words)
termination_by zchars => zchars.length
decreasing_by
  simp only [List.length_drop, List.length_cons]
  omega

def pack (zchars : List ZChar) : List UInt8 :=
  (packWords zchars).flatMap Word.bytes

def encode (text : List Char) : List UInt8 :=
  pack (encodeChars text)

/-- Z-characters of a dictionary key. -/
def keyLength : Nat := 6

/-- A word in lower case, cut or filled up to the length of a key. -/
def keyZChars (word : List Char) : List ZChar :=
  let zchars := encodeChars (Text.lowercase word)
  (zchars ++ List.replicate keyLength ZChar.shiftPunctuation).take keyLength

/-- The four bytes under which the dictionary files a word. -/
def dictionaryKey (word : List Char) : List UInt8 :=
  pack (keyZChars word)

end ZMachine.ZString
