import ZMachine.Zscii

/-!
# Z-characters and the three alphabets

A Z-character is a number of five bits. Those from 6 on stand for the letters of the alphabet in
force; the smaller ones are the space, the abbreviations and the shifts. In the third alphabet the
first two places are no letters: 6 begins an escape that gives a ZSCII code in ten bits, and 7 is
the new line.
-/

namespace ZMachine

abbrev ZChar := Fin 32

inductive Alphabet where
  | lower
  | upper
  | punctuation
  deriving DecidableEq, Repr, Inhabited

namespace Alphabet

def letters : Alphabet → List Char
  | lower => "abcdefghijklmnopqrstuvwxyz".toList
  | upper => "ABCDEFGHIJKLMNOPQRSTUVWXYZ".toList
  | punctuation => " \n0123456789.,!?_#'\x22/\\-:()".toList

/-- The alphabet of a number, which is 1 or 2 for those that are shifted to. -/
def ofNumber : Nat → Alphabet
  | 1 => upper
  | 2 => punctuation
  | _ => lower

/-- The letter of a Z-character from 6 on. -/
def letter (alphabet : Alphabet) (z : ZChar) : Char :=
  alphabet.letters.getD (z.val - 6) '?'

/-- The letter at the place that a Z-character gives; those below 6 give none. -/
def letterOf (alphabet : Alphabet) (z : ZChar) : Except MachineError Char := do
  let place ← subtract z.val 6
  present alphabet.letters[place]?

theorem length_letters (alphabet : Alphabet) : alphabet.letters.length = 26 := by
  cases alphabet <;> rfl

theorem letterOf_eq (alphabet : Alphabet) {z : ZChar} (letter : 6 ≤ z.val) :
    alphabet.letterOf z = .ok (alphabet.letter z) := by
  have inside : z.val - 6 < alphabet.letters.length := by
    have := z.isLt
    rw [length_letters]
    omega
  rw [letterOf, except_bind_of_ok (subtract_of_le letter), List.getElem?_eq_getElem inside,
    present_some, Alphabet.letter, ← List.getElem_eq_getD (h := inside)]

end Alphabet

namespace ZChar

/-- The lowest five bits of a number. -/
def ofNat (n : Nat) : ZChar :=
  ⟨n % 32, Nat.mod_lt n (by decide)⟩

def ofByte (b : UInt8) : ZChar :=
  ofNat b.toNat

def toByte (z : ZChar) : UInt8 :=
  .ofNat z.val

def space : ZChar := ofNat 0

/-- Shifts to the second alphabet for one letter. -/
def shiftUpper : ZChar := 4

/-- Shifts to the third alphabet for one letter; also fills up the last word of a string. -/
def shiftPunctuation : ZChar := 5

/-- In the third alphabet, begins a ZSCII code of ten bits. -/
def escape : ZChar := 6

/-- In the third alphabet, the new line. -/
def newLine : ZChar := 7

end ZChar

end ZMachine
