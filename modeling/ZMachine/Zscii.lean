import ZMachine.Checked

/-!
# ZSCII

The character codes of the machine: ASCII from 32 to 126, thirteen for a new line, and from 155 on a
table of accented letters. Every other code but zero shows as a question mark.

The machine looks characters up with `character` and `characters`; `toChar?` and `text` say what
they find (`character_eq`, `characters_eq`).
-/

namespace ZMachine.Zscii

/-- The characters of the codes from 155 on. -/
def extraCharacters : List Char :=
  ['ä', 'ö', 'ü', 'Ä', 'Ö', 'Ü', 'ß', '»', '«', 'ë', 'ï', 'ÿ', 'Ë', 'Ï', 'á', 'é', 'í', 'ó', 'ú',
    'ý', 'Á', 'É', 'Í', 'Ó', 'Ú', 'Ý', 'à', 'è', 'ì', 'ò', 'ù', 'À', 'È', 'Ì', 'Ò', 'Ù', 'â', 'ê',
    'î', 'ô', 'û', 'Â', 'Ê', 'Î', 'Ô', 'Û', 'å', 'Å', 'ø', 'Ø', 'ã', 'ñ', 'õ', 'Ã', 'Ñ', 'Õ', 'æ',
    'Æ', 'ç', 'Ç', 'þ', 'ð', 'Þ', 'Ð', '£', 'œ', 'Œ', '¡', '¿']

/-- The character of a code; code zero has none. -/
def toChar? (code : Nat) : Option Char :=
  if code = 0 then none
  else if code = 13 then some '\n'
  else if 32 ≤ code ∧ code ≤ 126 then some (Char.ofNat code)
  else if 155 ≤ code ∧ code ≤ 223 then some (extraCharacters.getD (code - 155) '?')
  else some '?'

/-- The character of a code, looked up in the table at the place that the code gives. -/
def character (code : Nat) : Except MachineError (Option Char) :=
  if code = 0 then .ok none
  else if code = 13 then .ok (some '\n')
  else if 32 ≤ code ∧ code ≤ 126 then .ok (some (Char.ofNat code))
  else if 155 ≤ code ∧ code ≤ 223 then do
    let place ← subtract code 155
    let c ← present extraCharacters[place]?
    pure (some c)
  else .ok (some '?')

def ofChar? (c : Char) : Option Nat :=
  if c = '\n' then some 13
  else if 32 ≤ c.toNat ∧ c.toNat ≤ 126 then some c.toNat
  else (extraCharacters.idxOf? c).map (· + 155)

/-- The code of a character, or that of a question mark. -/
def ofChar (c : Char) : Nat :=
  (ofChar? c).getD '?'.toNat

/-- The text of a stretch of codes; codes without a character are skipped. -/
def text (codes : List UInt8) : List Char :=
  codes.filterMap fun b => toChar? b.toNat

def characters : List UInt8 → Except MachineError (List Char)
  | [] => pure []
  | b :: codes => do
    let c ← character b.toNat
    let rest ← characters codes
    pure (c.toList ++ rest)

theorem present_extraCharacter {code : Nat} (extra : 155 ≤ code ∧ code ≤ 223) :
    present extraCharacters[code - 155]? = .ok (extraCharacters.getD (code - 155) '?') := by
  have count : extraCharacters.length = 69 := by decide
  have inside : code - 155 < extraCharacters.length := by omega
  rw [List.getElem?_eq_getElem inside, ← List.getElem_eq_getD (h := inside), present_some]

/-- The table has a character for each code from 155 up to 223. -/
theorem character_eq (code : Nat) : character code = .ok (toChar? code) := by
  simp only [character, toChar?]
  split
  · rfl
  · split
    · rfl
    · split
      · rfl
      · split
        · next extra =>
          rw [except_bind_of_ok (subtract_of_le extra.1)]
          exact except_bind_of_ok (present_extraCharacter extra)
        · rfl

theorem characters_eq (codes : List UInt8) : characters codes = .ok (text codes) := by
  induction codes with
  | nil => rfl
  | cons b codes ih =>
    rw [characters, except_bind_of_ok (character_eq _), except_bind_of_ok ih, text, text,
      List.filterMap_cons]
    cases toChar? b.toNat <;> rfl

theorem ofChar?_lt {c : Char} {code : Nat} (h : ofChar? c = some code) : code < 224 := by
  simp only [ofChar?] at h
  split at h
  · cases h; omega
  · split at h
    · cases h; omega
    · obtain ⟨i, hi, rfl⟩ := Option.map_eq_some_iff.mp h
      have hlt : i < extraCharacters.length := by
        rw [List.idxOf?_eq_map_finIdxOf?_val] at hi
        obtain ⟨j, _, rfl⟩ := Option.map_eq_some_iff.mp hi
        exact j.isLt
      have : extraCharacters.length = 69 := by decide
      omega

end ZMachine.Zscii
