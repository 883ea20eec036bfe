import ZMachine.Proofs.Machine.Input
import ZMachine.Proofs.ZString.RoundTrip
import ZMachine.Proofs.Zscii

/-!
# Text whose characters have codes

`Zscii.Coded text` says that each character of a text has a ZSCII code, so that no question mark
has to stand for it where the text is stored. Text that is read from memory is always of this kind,
whatever the bytes are (`coded_of_decode`): each letter of the alphabets has a code, and an escape
shows the character of its code, if need be a question mark. Lower case keeps the codes, too
(`Coded.lowercase`).
-/

namespace ZMachine

namespace Zscii

/-- Each character of the text has a code. -/
def Coded (text : List Char) : Prop :=
  ∀ c ∈ text, (ofChar? c).isSome

instance (text : List Char) : Decidable (Coded text) :=
  List.decidableBAll _ text

variable {text front back : List Char} {c : Char}

theorem coded_nil : Coded [] :=
  fun _ member => nomatch member

theorem coded_cons : Coded (c :: text) ↔ (ofChar? c).isSome ∧ Coded text :=
  List.forall_mem_cons

theorem coded_append : Coded (front ++ back) ↔ Coded front ∧ Coded back :=
  List.forall_mem_append

theorem coded_reverse : Coded text.reverse ↔ Coded text := by
  simp only [Coded, List.mem_reverse]

theorem Coded.of_isPrefix (h : Coded text) (beginning : front <+: text) : Coded front :=
  fun c member => h c (beginning.subset member)

/-- Characters with codes show as themselves. -/
theorem Coded.map_shown (h : Coded text) : text.map shown = text :=
  (List.map_congr_left fun c member => if_pos (h c member)).trans (List.map_id text)

theorem Coded.lowercase (h : Coded text) : Coded (Text.lowercase text) := by
  intro d member
  obtain ⟨c, among, lower⟩ := List.mem_flatMap.mp member
  by_cases newLine : c = '\n'
  · have same : Text.lowercaseChar '\n' = ['\n'] := by decide +kernel
    rw [newLine, same, List.mem_singleton] at lower
    rw [lower]
    rfl
  · obtain ⟨form, one, coded, -⟩ := exists_lowercaseChar (h c among) newLine
    rw [one, List.mem_singleton] at lower
    rw [lower]
    exact coded

end Zscii

namespace ZString

open Zscii

variable {abbreviations : Abbreviations} {memory : Memory} {address table number length : Nat}
  {text read : List Char} {shift : Shift} {zchars : List ZChar}

theorem isSome_ofChar?_letter (alphabet : Alphabet) (z : ZChar) :
    (ofChar? (alphabet.letter z)).isSome := by
  cases alphabet <;> revert z <;> decide

/-- By induction on the Z-characters: whatever one of them adds to the text has a code, as long as
the abbreviations stand for such text. -/
theorem coded_of_decodeFrom
    (expansions : ∀ expansion, abbreviations = .ok expansion →
      ∀ number t, expansion number = .ok t → Coded t)
    (before : Coded read) (h : decodeFrom abbreviations shift read zchars = .ok text) :
    Coded text := by
  fun_induction decodeFrom abbreviations shift read zchars with
  | case1 =>
    cases h
    exact coded_reverse.mpr before
  | case2 shift read z rest space ih =>
    exact ih (coded_cons.mpr ⟨by decide, before⟩) h
  | case3 => cases h
  | case4 =>
    cases h
    exact coded_reverse.mpr before
  | case5 => cases h
  | case6 shift read z notSpace prefixed expansion index rest known t found ih =>
    have inserted : Coded t := expansions expansion known _ t found
    exact ih (coded_append.mpr ⟨coded_reverse.mpr inserted, before⟩) h
  | case7 shift read rest notSpace prefixed ih => exact ih before h
  | case8 shift read rest notSpace prefixed upper ih => exact ih before h
  | case9 shift read z notSpace prefixed upper punctuation escape high low rest ih =>
    refine ih (coded_append.mpr ⟨fun c shows => ?_, before⟩) h
    exact isSome_ofChar?_of_toChar? (Option.mem_toList.mp shows)
  | case10 =>
    cases h
    exact coded_reverse.mpr before
  | case11 shift read z rest notSpace prefixed upper punctuation plain ih =>
    exact ih (coded_cons.mpr ⟨isSome_ofChar?_letter _ z, before⟩) h

theorem coded_of_decodeWith
    (expansions : ∀ expansion, abbreviations = .ok expansion →
      ∀ number t, expansion number = .ok t → Coded t)
    (h : decodeWith abbreviations memory address = .ok (text, length)) : Coded text := by
  rw [decodeWith_eq] at h
  obtain ⟨t, read, eq⟩ := except_bind_eq_ok.mp h
  cases eq
  exact coded_of_decodeFrom expansions coded_nil read

theorem coded_of_expand (h : expand memory table address number = .ok text) : Coded text := by
  simp only [expand_eq] at h
  split at h
  · cases h
  · obtain ⟨⟨t, length⟩, read, eq⟩ := except_bind_eq_ok.mp h
    cases eq
    exact coded_of_decodeWith (fun _ none => by cases none) read

/-- Text that is read from memory has codes for all its characters, whatever the bytes are. -/
theorem coded_of_decode (h : decode memory address table = .ok (text, length)) : Coded text := by
  refine coded_of_decodeWith (fun expansion known number t found => ?_) h
  cases known
  exact coded_of_expand found

end ZString

end ZMachine
