import ZMachine.Text.Lowercase
import ZMachine.Zscii

/-!
# Characters and their codes

Characters with codes are the line end, those of ASCII that print, and the ones of a table
(`isSome_ofChar?_iff`). Whatever is the character of a code is among them, and so are the lower-case
forms of them all (`exists_lowercaseChar`).
-/

namespace ZMachine.Zscii

variable {c : Char} {code : Nat}

theorem ofChar?_space : ofChar? ' ' = some 32 := by
  decide

theorem le_of_ofChar? (h : ofChar? c = some code) : 13 ≤ code := by
  simp only [ofChar?] at h
  split at h
  · cases h
    exact Nat.le_refl _
  · split at h
    · cases h
      omega
    · obtain ⟨i, -, rfl⟩ := Option.map_eq_some_iff.mp h
      omega

theorem isSome_ofChar?_iff :
    (ofChar? c).isSome ↔ c = '\n' ∨ (32 ≤ c.toNat ∧ c.toNat ≤ 126) ∨ c ∈ extraCharacters := by
  rw [ofChar?]
  split
  · next newLine => simp [newLine]
  · next inLine =>
    split
    · next ascii => simp [ascii]
    · next other =>
      rw [Option.isSome_map, List.isSome_idxOf?]
      simp [inLine, other]

theorem isSome_toChar? (ne : code ≠ 0) : (toChar? code).isSome = true := by
  rw [toChar?, if_neg ne]
  repeat' split
  all_goals rfl

theorem length_text {codes : List UInt8} (nonzero : ∀ b ∈ codes, b ≠ 0) :
    (text codes).length = codes.length := by
  rw [text, List.length_filterMap_eq_countP, List.countP_eq_length]
  intro b member
  refine isSome_toChar? fun zero => nonzero b member ?_
  exact UInt8.toNat_inj.mp zero

/-- The character of a code has a code itself; it need not be the same. -/
theorem isSome_ofChar?_of_toChar? (h : toChar? code = some c) : (ofChar? c).isSome := by
  rw [isSome_ofChar?_iff]
  simp only [toChar?] at h
  split at h
  · cases h
  · split at h
    · cases h
      exact .inl rfl
    · split at h
      · next ascii =>
        have valid : code.isValidChar := .inl (by omega)
        have same : (Char.ofNat code).toNat = code := by
          rw [Char.ofNat, dif_pos valid]
          rfl
        cases h
        rw [same]
        exact .inr (.inl ascii)
      · split at h
        · next extra =>
          have count : extraCharacters.length = 69 := by decide
          have bound : code - 155 < extraCharacters.length := by omega
          rw [← Option.some.inj h, ← List.getElem_eq_getD (h := bound)]
          exact .inr (.inr (List.getElem_mem bound))
        · cases h
          exact .inr (.inl (by decide))

/-- There is one lower-case form, which has a code, and it ends no line. -/
def lowersInLine (c : Char) : Bool :=
  (Text.lowercaseChar c).length == 1 &&
    (Text.lowercaseChar c).all fun d => (ofChar? d).isSome && d != '\n'

/-- A character with a code other than a line end is in lower case one of them, too. -/
theorem exists_lowercaseChar (coded : (ofChar? c).isSome) (inLine : c ≠ '\n') :
    ∃ d, Text.lowercaseChar c = [d] ∧ (ofChar? d).isSome ∧ d ≠ '\n' := by
  have ascii : ∀ n : Fin 127, 32 ≤ n.val → lowersInLine (Char.ofNat n) := by decide +kernel
  have extra : extraCharacters.all lowersInLine := by decide +kernel
  have lowers : lowersInLine c := by
    rcases isSome_ofChar?_iff.mp coded with newLine | printable | listed
    · exact absurd newLine inLine
    · rw [← Char.ofNat_toNat c]
      exact ascii ⟨c.toNat, by omega⟩ printable.1
    · exact List.all_eq_true.mp extra c listed
  rw [lowersInLine, Bool.and_eq_true, beq_iff_eq] at lowers
  obtain ⟨d, one⟩ := List.length_eq_one_iff.mp lowers.1
  refine ⟨d, one, ?_⟩
  simpa [one] using lowers.2

end ZMachine.Zscii
