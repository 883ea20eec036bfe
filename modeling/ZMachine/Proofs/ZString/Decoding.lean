import ZMachine.Proofs.Operation
import ZMachine.Proofs.ZString.Words

/-!
# What one Z-character does

`decodeFrom` reads Z-characters one after the other, with no regard to bounds. Its equations, one
for each kind of Z-character and with what it takes from those behind it, say the same of the
machine's own reading, in which every access is checked (`decodeAt_eq`, `decodeWith_eq`). A letter
is any from 6 on, but for the one that begins an escape in the third alphabet.
-/

namespace ZMachine.ZString

/-- Reads Z-characters; `read` is the text before them, last character first. -/
def decodeFrom (abbreviations : Abbreviations) (shift : Shift) (read : List Char) :
    List ZChar → Except MachineError (List Char)
  | [] => .ok read.reverse
  | z :: rest =>
    if z.val = 0 then decodeFrom abbreviations shift.settle (' ' :: read) rest
    else if z.val ≤ 3 then
      match abbreviations, rest with
      | .error e, _ => .error e
      | .ok _, [] => .ok read.reverse
      | .ok expansion, index :: rest =>
        match expansion ((z.val - 1) * 32 + index.val) with
        | .error e => .error e
        | .ok text => decodeFrom abbreviations shift.settle (text.reverse ++ read) rest
    else if z = ZChar.shiftUpper then decodeFrom abbreviations (shift.press z .upper) read rest
    else if z = ZChar.shiftPunctuation then
      decodeFrom abbreviations (shift.press z .punctuation) read rest
    else if shift.current = .punctuation ∧ z = ZChar.escape then
      match rest with
      | high :: low :: rest =>
        decodeFrom abbreviations shift.settle
          ((Zscii.toChar? (high.val * 32 + low.val)).toList ++ read) rest
      | _ => .ok read.reverse
    else decodeFrom abbreviations shift.settle (shift.current.letter z :: read) rest

variable {abbreviations : Abbreviations} {shift : Shift} {read : List Char} {z : ZChar}

/-- What the first Z-character asks for. -/
theorem decodeFrom_cons (z : ZChar) (rest : List ZChar) :
    decodeFrom abbreviations shift read (z :: rest) =
      if z.val = 0 then decodeFrom abbreviations shift.settle (' ' :: read) rest
      else if z.val ≤ 3 then
        match abbreviations, rest with
        | .error e, _ => .error e
        | .ok _, [] => .ok read.reverse
        | .ok expansion, index :: rest =>
          match expansion ((z.val - 1) * 32 + index.val) with
          | .error e => .error e
          | .ok text => decodeFrom abbreviations shift.settle (text.reverse ++ read) rest
      else if z = ZChar.shiftUpper then decodeFrom abbreviations (shift.press z .upper) read rest
      else if z = ZChar.shiftPunctuation then
        decodeFrom abbreviations (shift.press z .punctuation) read rest
      else if shift.current = .punctuation ∧ z = ZChar.escape then
        match rest with
        | high :: low :: rest =>
          decodeFrom abbreviations shift.settle
            ((Zscii.toChar? (high.val * 32 + low.val)).toList ++ read) rest
        | _ => .ok read.reverse
      else decodeFrom abbreviations shift.settle (shift.current.letter z :: read) rest := by
  rw [decodeFrom.eq_def]

theorem decodeFrom_space (rest : List ZChar) (space : z.val = 0) :
    decodeFrom abbreviations shift read (z :: rest) =
      decodeFrom abbreviations shift.settle (' ' :: read) rest := by
  rw [decodeFrom_cons]
  exact if_pos space

theorem decodeFrom_refused {e : MachineError} (rest : List ZChar) (notSpace : z.val ≠ 0)
    (le : z.val ≤ 3) : decodeFrom (.error e) shift read (z :: rest) = .error e := by
  rw [decodeFrom_cons, if_neg notSpace, if_pos le]

/-- The first Z-character of an abbreviation adds nothing if there is no second. -/
theorem decodeFrom_cutAbbreviation {expansion : Nat → Except MachineError (List Char)}
    (notSpace : z.val ≠ 0) (le : z.val ≤ 3) :
    decodeFrom (.ok expansion) shift read [z] = .ok read.reverse := by
  rw [decodeFrom_cons, if_neg notSpace, if_pos le]

theorem decodeFrom_abbreviation {expansion : Nat → Except MachineError (List Char)}
    (index : ZChar) (rest : List ZChar) (notSpace : z.val ≠ 0) (le : z.val ≤ 3) :
    decodeFrom (.ok expansion) shift read (z :: index :: rest) =
      expansion ((z.val - 1) * 32 + index.val) >>= fun text =>
        decodeFrom (.ok expansion) shift.settle (text.reverse ++ read) rest := by
  rw [decodeFrom_cons, if_neg notSpace, if_pos le]
  dsimp only
  cases expansion ((z.val - 1) * 32 + index.val) <;> rfl

theorem decodeFrom_shiftUpper (rest : List ZChar) :
    decodeFrom abbreviations shift read (ZChar.shiftUpper :: rest) =
      decodeFrom abbreviations (shift.press ZChar.shiftUpper .upper) read rest := by
  rw [decodeFrom_cons]
  rfl

theorem decodeFrom_shiftPunctuation (rest : List ZChar) :
    decodeFrom abbreviations shift read (ZChar.shiftPunctuation :: rest) =
      decodeFrom abbreviations (shift.press ZChar.shiftPunctuation .punctuation) read rest := by
  rw [decodeFrom_cons]
  rfl

theorem decodeFrom_escape (high low : ZChar) (rest : List ZChar)
    (third : shift.current = .punctuation) :
    decodeFrom abbreviations shift read (ZChar.escape :: high :: low :: rest) =
      decodeFrom abbreviations shift.settle
        ((Zscii.toChar? (high.val * 32 + low.val)).toList ++ read) rest := by
  rw [decodeFrom_cons]
  exact if_pos (And.intro third rfl)

/-- An escape without both halves of its code ends the text. -/
theorem decodeFrom_cutEscape {rest : List ZChar} (short : rest.length < 2)
    (third : shift.current = .punctuation) :
    decodeFrom abbreviations shift read (ZChar.escape :: rest) = .ok read.reverse := by
  rw [decodeFrom_cons]
  match rest, short with
  | [], _ => exact if_pos (And.intro third rfl)
  | [_], _ => exact if_pos (And.intro third rfl)

theorem decodeFrom_letter (rest : List ZChar) (letter : 6 ≤ z.val)
    (plain : ¬ (shift.current = .punctuation ∧ z = ZChar.escape)) :
    decodeFrom abbreviations shift read (z :: rest) =
      decodeFrom abbreviations shift.settle (shift.current.letter z :: read) rest := by
  have upper : z ≠ ZChar.shiftUpper := by
    rintro rfl
    exact absurd letter (by decide)
  have punctuation : z ≠ ZChar.shiftPunctuation := by
    rintro rfl
    exact absurd letter (by decide)
  rw [decodeFrom_cons, if_neg (by omega), if_neg (by omega), if_neg upper, if_neg punctuation,
    if_neg plain]

/-- A Z-character that is none of those with a use of their own is a letter. -/
theorem letter_of_ne (prefixed : ¬ z.val ≤ 3) (upper : z ≠ ZChar.shiftUpper)
    (punctuation : z ≠ ZChar.shiftPunctuation) : 6 ≤ z.val := by
  have four : z.val ≠ 4 := fun eq => upper (Fin.ext eq)
  have five : z.val ≠ 5 := fun eq => punctuation (Fin.ext eq)
  omega

theorem ofNumber_shiftUpper : Alphabet.ofNumber (ZChar.shiftUpper.val - 3) = .upper := rfl

theorem ofNumber_shiftPunctuation :
    Alphabet.ofNumber (ZChar.shiftPunctuation.val - 3) = .punctuation := rfl

/-- No Z-character that is looked at lies beyond the end of the string, and each letter lies in its
alphabet. -/
theorem decodeAt_eq (abbreviations : Abbreviations) (zchars : Array ZChar) (shift : Shift)
    (read : List Char) (i : Nat) :
    decodeAt abbreviations zchars shift read i =
      decodeFrom abbreviations shift read (zchars.toList.drop i) := by
  have there (k : Nat) (inside : k < zchars.size) :
      zchars.toList.drop k = zchars[k] :: zchars.toList.drop (k + 1) :=
    List.drop_eq_getElem_cons inside
  rw [decodeAt]
  split
  · next inside =>
    rw [there i inside, Array.getElem?_eq_getElem inside, except_bind_of_ok (present_some _)]
    generalize zchars[i] = z
    -- The cases are the kinds of Z-characters; each but the letters asks for what stands behind.
    split
    · next space => rw [decodeFrom_space _ space, decodeAt_eq]
    split
    · next notSpace prefixed =>
      cases abbreviations with
      | error e => exact (decodeFrom_refused _ notSpace prefixed).symm
      | ok expansion =>
        rw [except_bind_of_ok rfl]
        by_cases more : i + 1 < zchars.size
        · rw [there _ more, decodeFrom_abbreviation _ _ notSpace prefixed,
            Array.getElem?_eq_getElem more]
          refine (except_bind_of_ok (subtract_of_le (by omega))).trans ?_
          congr 1
          funext text
          exact decodeAt_eq _ _ _ _ _
        · rw [List.drop_eq_nil_of_le (Nat.le_of_not_lt more),
            decodeFrom_cutAbbreviation notSpace prefixed,
            Array.getElem?_eq_none (Nat.le_of_not_lt more)]
          rfl
    split
    · next shifts =>
      rcases shifts with rfl | rfl
      · rw [except_bind_of_ok (subtract_of_le (by decide)), ofNumber_shiftUpper,
          decodeFrom_shiftUpper, decodeAt_eq]
      · rw [except_bind_of_ok (subtract_of_le (by decide)), ofNumber_shiftPunctuation,
          decodeFrom_shiftPunctuation, decodeAt_eq]
    split
    · next escape =>
      rw [escape.2]
      split
      · next whole =>
        rw [there (i + 1) (by omega), there (i + 2) whole, decodeFrom_escape _ _ _ escape.1,
          Array.getElem?_eq_getElem (show i + 1 < zchars.size by omega),
          Array.getElem?_eq_getElem whole, except_bind_of_ok (present_some _),
          except_bind_of_ok (present_some _), except_bind_of_ok (Zscii.character_eq _), decodeAt_eq]
      · next cut =>
        have short : (zchars.toList.drop (i + 1)).length < 2 := by
          rw [List.length_drop, Array.length_toList]
          omega
        exact (decodeFrom_cutEscape short escape.1).symm
    · next prefixed shifts plain =>
      have letter := letter_of_ne prefixed (fun eq => shifts (.inl eq)) fun eq => shifts (.inr eq)
      rw [except_bind_of_ok (Alphabet.letterOf_eq _ letter), decodeFrom_letter _ letter plain,
        decodeAt_eq]
  · next behind =>
    rw [List.drop_eq_nil_of_le (Nat.le_of_not_lt behind), decodeFrom]
    rfl
termination_by zchars.size - i

theorem decodeWith_eq (abbreviations : Abbreviations) (memory : Memory) (address : Nat) :
    decodeWith abbreviations memory address =
      decodeFrom abbreviations {} [] ((words memory address).flatMap unpackWord) >>= fun text =>
        pure (text, 2 * (words memory address).length) := by
  rw [decodeWith, except_bind_of_ok (collect_eq memory address)]
  dsimp only
  rw [decodeAt_eq]
  rfl

theorem expand_eq (memory : Memory) (table address number : Nat) :
    expand memory table address number =
      if memory.size ≤ table + number * 2 + 1 then
        .error (.undecodable address (.abbreviationOutside number))
      else
        let start := (memory.word (table + number * 2)).toNat * 2
        decodeWith (.error (.undecodable start .nestedAbbreviation)) memory start >>= fun read =>
          pure read.1 := by
  rw [expand]
  dsimp only
  split
  · rfl
  · next inside => exact except_bind_of_ok (Memory.wordIn_of_lt (Nat.lt_of_not_le inside))

theorem length_of_decode {memory : Memory} {address table length : Nat} {text : List Char}
    (h : decode memory address table = .ok (text, length)) :
    length = 2 * (words memory address).length := by
  rw [decode, decodeWith_eq] at h
  obtain ⟨_, -, eq⟩ := except_bind_eq_ok.mp h
  cases eq
  rfl

end ZMachine.ZString
