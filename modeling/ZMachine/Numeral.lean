/-!
# Numerals in messages and listings

Addresses and codes are written in lower-case hexadecimal with a least number of digits, branch
distances in decimal with an explicit sign.
-/

namespace ZMachine.Numeral

/-- The digits, with zeros in front up to `width` of them. -/
def padded (width : Nat) (digits : List Char) : String :=
  String.ofList (List.replicate (width - digits.length) '0' ++ digits)

/-- Lower-case hexadecimal, at least `width` digits. -/
def hex (width n : Nat) : String :=
  padded width (Nat.toDigits 16 n)

def address (width n : Nat) : String :=
  "0x" ++ hex width n

/-- A program counter, which has 32 bits: an address beyond them shows by its lowest 32. -/
def programCounter (pc : Nat) : String :=
  address 5 (pc % UInt32.size)

def decimal (width n : Nat) : String :=
  padded width (Nat.toDigits 10 n)

/-- Decimal with `-` for what lies below zero and nothing else in front. -/
def integer (n : Int) : String :=
  if n < 0 then "-" ++ decimal 1 n.natAbs else decimal 1 n.natAbs

def signed (n : Int) : String :=
  if n < 0 then integer n else "+" ++ integer n

end ZMachine.Numeral
