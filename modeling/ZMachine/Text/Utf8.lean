/-!
# Text from bytes

Bytes are read as UTF-8. Where they are not, each longest stretch that starts a character without
finishing it, and each byte that cannot start one, counts as one fault.
-/

namespace ZMachine.Text

/-- What the first byte of a character of several bytes says: its share of the code point, and the
range of each byte that has to follow. -/
def continuations (lead : UInt8) : Option (Nat × List (Nat × Nat)) :=
  let n := lead.toNat
  let any := (0x80, 0xBF)
  if n < 0xC2 then none
  else if n ≤ 0xDF then some (n - 0xC0, [any])
  else if n = 0xE0 then some (0, [(0xA0, 0xBF), any])
  else if n = 0xED then some (0xD, [(0x80, 0x9F), any])
  else if n ≤ 0xEF then some (n - 0xE0, [any, any])
  else if n = 0xF0 then some (0, [(0x90, 0xBF), any, any])
  else if n ≤ 0xF3 then some (n - 0xF0, [any, any, any])
  else if n = 0xF4 then some (4, [(0x80, 0x8F), any, any])
  else none

/-- Reads the bytes that have to follow. The second component is what is left to read, from the
first byte that does not fit. -/
def readContinuations : Nat → List (Nat × Nat) → List UInt8 → Option Char × List UInt8
  | code, [], rest => (some (Char.ofNat code), rest)
  | _, _ :: _, [] => (none, [])
  | code, (least, greatest) :: ranges, b :: rest =>
    if least ≤ b.toNat ∧ b.toNat ≤ greatest then
      readContinuations (code * 64 + b.toNat % 64) ranges rest
    else (none, b :: rest)

theorem length_readContinuations_le (code : Nat) (ranges : List (Nat × Nat)) (bytes : List UInt8) :
    (readContinuations code ranges bytes).2.length ≤ bytes.length := by
  induction ranges generalizing code bytes with
  | nil => simp [readContinuations]
  | cons r ranges ih =>
    cases bytes with
    | nil => simp [readContinuations]
    | cons b rest =>
      simp only [readContinuations]
      split
      · exact Nat.le_succ_of_le (ih _ _)
      · exact Nat.le_refl _

/-- The characters that the bytes spell, with `none` for each fault. -/
def readUtf8 : List UInt8 → List (Option Char)
  | [] => []
  | b :: rest =>
    if b.toNat < 0x80 then some (Char.ofNat b.toNat) :: readUtf8 rest
    else
      match continuations b with
      | none => none :: readUtf8 rest
      | some (code, ranges) =>
        (readContinuations code ranges rest).1 :: readUtf8 (readContinuations code ranges rest).2
termination_by bytes => bytes.length
decreasing_by
  all_goals simp only [List.length_cons]
  · omega
  · omega
  · have := length_readContinuations_le code ranges rest
    omega

/-- The text that the bytes spell, with U+FFFD for each fault. -/
def ofUtf8Lossy (bytes : List UInt8) : String :=
  String.ofList ((readUtf8 bytes).map fun c => c.getD (Char.ofNat 0xFFFD))

/-- The text that the bytes spell, if they have no fault. -/
def ofUtf8? (bytes : List UInt8) : Option String :=
  ((readUtf8 bytes).mapM id).map String.ofList

def ofLatin1 (bytes : List UInt8) : String :=
  String.ofList (bytes.map fun b => Char.ofNat b.toNat)

end ZMachine.Text
