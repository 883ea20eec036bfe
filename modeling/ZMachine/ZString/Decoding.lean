import ZMachine.ZString.Alphabet

/-!
# Z-strings to text

A Z-string in memory runs through the first word with its highest bit set, or through the last
whole word of memory. Reading it keeps track of the alphabet in force: a shift holds for one letter,
and the same shift twice in a row locks its alphabet. Z-characters 1 to 3 and the one after them
stand for an abbreviation, whose text may hold no abbreviations itself.
-/

namespace ZMachine.ZString

def unpackWord (w : UInt16) : List ZChar :=
  [ZChar.ofNat (w.toNat / 1024), ZChar.ofNat (w.toNat / 32), ZChar.ofNat w.toNat]

/-- The highest bit of a word, which marks the end of a string. -/
def endsString (w : UInt16) : Bool :=
  0x8000 ≤ w.toNat

/-- Collects the words of a string from an address on, `collected` being those before it, latest
first. Gives the address behind them, too. -/
def collectFrom (memory : Memory) (address : Nat) (collected : List UInt16) :
    Except MachineError (List UInt16 × Nat) :=
  if address + 1 < memory.size then do
    let w ← memory.wordIn address
    if endsString w then pure ((w :: collected).reverse, address + 2)
    else collectFrom memory (address + 2) (w :: collected)
  else pure (collected.reverse, address)
termination_by memory.size - address

/-- The Z-characters of the string at an address, and its length in bytes. -/
def collect (memory : Memory) (address : Nat) : Except MachineError (List ZChar × Nat) := do
  let (words, behind) ← collectFrom memory address []
  let length ← subtract behind address
  pure (words.flatMap unpackWord, length)

/-- The alphabets while a string is read. -/
structure Shift where
  locked : Alphabet := .lower
  current : Alphabet := .lower
  /-- The Z-character just before, if it was a shift that has not locked. -/
  last : Option ZChar := none
  deriving DecidableEq, Repr

namespace Shift

/-- After anything that is no shift, the locked alphabet is in force again. -/
def settle (shift : Shift) : Shift :=
  { locked := shift.locked, current := shift.locked, last := none }

/-- After a shift to `target` by Z-character `z`. -/
def press (shift : Shift) (z : ZChar) (target : Alphabet) : Shift :=
  if shift.last = some z then { locked := target, current := target, last := none }
  else { locked := shift.locked, current := target, last := some z }

end Shift

/-- What abbreviation number `n` stands for; the error in its place says that the text may hold
none. -/
abbrev Abbreviations := Except MachineError (Nat → Except MachineError (List Char))

/-- Reads Z-characters from place `i` on; `read` is the text before them, last character first. -/
def decodeAt (abbreviations : Abbreviations) (zchars : Array ZChar) (shift : Shift)
    (read : List Char) (i : Nat) : Except MachineError (List Char) :=
  if i < zchars.size then do
    let z ← present zchars[i]?
    if z.val = 0 then decodeAt abbreviations zchars shift.settle (' ' :: read) (i + 1)
    else if z.val ≤ 3 then
      let expansion ← abbreviations
      match zchars[i + 1]? with
      | none => pure read.reverse
      | some index =>
        let bank ← subtract z.val 1
        let text ← expansion (bank * 32 + index.val)
        decodeAt abbreviations zchars shift.settle (text.reverse ++ read) (i + 2)
    else if z = ZChar.shiftUpper ∨ z = ZChar.shiftPunctuation then
      let target ← subtract z.val 3
      decodeAt abbreviations zchars (shift.press z (.ofNumber target)) read (i + 1)
    else if shift.current = .punctuation ∧ z = ZChar.escape then
      if i + 2 < zchars.size then
        let high ← present zchars[i + 1]?
        let low ← present zchars[i + 2]?
        let c ← Zscii.character (high.val * 32 + low.val)
        decodeAt abbreviations zchars shift.settle (c.toList ++ read) (i + 3)
      else pure read.reverse
    else
      let c ← shift.current.letterOf z
      decodeAt abbreviations zchars shift.settle (c :: read) (i + 1)
  else pure read.reverse
termination_by zchars.size - i

/-- Text and length in bytes of the string at an address, under the given abbreviations. -/
def decodeWith (abbreviations : Abbreviations) (memory : Memory) (address : Nat) :
    Except MachineError (List Char × Nat) := do
  let (zchars, length) ← collect memory address
  let text ← decodeAt abbreviations zchars.toArray {} [] 0
  pure (text, length)

/-- The text of an abbreviation, for a string at `address`. -/
def expand (memory : Memory) (table address number : Nat) : Except MachineError (List Char) :=
  let entry := table + number * 2
  if memory.size ≤ entry + 1 then
    .error (.undecodable address (.abbreviationOutside number))
  else do
    let packed ← memory.wordIn entry
    let start := packed.toNat * 2
    let (text, _) ← decodeWith (.error (.undecodable start .nestedAbbreviation)) memory start
    pure text

/-- Text and length in bytes of the string at an address; `table` is where the abbreviations are
listed. -/
def decode (memory : Memory) (address table : Nat) : Except MachineError (List Char × Nat) :=
  decodeWith (.ok (expand memory table address)) memory address

/-- The text of the string at a packed address, which counts in words. -/
def decodePacked (memory : Memory) (packed : UInt16) (table : Nat) :
    Except MachineError (List Char) := do
  let (text, _) ← decode memory (packed.toNat * 2) table
  pure text

end ZMachine.ZString
