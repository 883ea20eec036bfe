import ZMachine.Proofs.ZString.Decoding
import ZMachine.Proofs.ZString.Words

/-!
# Text that is encoded and decoded

Text is encoded character by character and with shifts for one letter only, so that behind each
character the first alphabet is in force again. `Reads abbreviations zchars text` says just that: no
matter what stands before and behind them, the Z-characters add the text and leave no shift. It
holds of a character (`reads_encodeChar`) and of an abbreviation (`reads_segment`), and is closed
under putting together; the shifts that fill up the last word add nothing (`decodeFrom_replicate`).

`decode_of_stored` is the round trip for a text that is put together from characters and
abbreviations and stored anywhere in memory.
-/

namespace ZMachine

theorem getD_of_idxOf? {letters : List Char} {c : Char} {i : Nat} (h : letters.idxOf? c = some i)
    (otherwise : Char) : i < letters.length ∧ letters.getD i otherwise = c := by
  obtain ⟨bound, eq, -⟩ := List.idxOf?_eq_some_iff.mp h
  exact ⟨bound, (List.getElem_eq_getD otherwise).symm.trans eq⟩

namespace Zscii

/-- What becomes of a character in a string: without a code it shows as a question mark. -/
def shown (c : Char) : Char :=
  if (ofChar? c).isSome then c else '?'

theorem toChar?_of_ofChar? {c : Char} {code : Nat} (h : ofChar? c = some code) :
    toChar? code = some c := by
  simp only [ofChar?] at h
  split at h
  · next newLine =>
    cases h
    rw [newLine]
    rfl
  · split at h
    · next ascii =>
      cases h
      rw [toChar?, if_neg (by omega), if_neg (by omega), if_pos ascii, Char.ofNat_toNat]
    · obtain ⟨i, found, rfl⟩ := Option.map_eq_some_iff.mp h
      obtain ⟨bound, eq⟩ := getD_of_idxOf? found '?'
      have count : extraCharacters.length = 69 := by decide
      rw [toChar?, if_neg (by omega), if_neg (by omega), if_neg (by omega), if_pos (by omega),
        Nat.add_sub_cancel, eq]

theorem toChar?_ofChar (c : Char) : toChar? (ofChar c) = some (shown c) := by
  rw [ofChar, shown]
  cases h : ofChar? c with
  | some code => exact toChar?_of_ofChar? h
  | none => rfl

theorem ofChar_lt (c : Char) : ofChar c < 224 := by
  rw [ofChar]
  cases h : ofChar? c with
  | some code => exact ofChar?_lt h
  | none => decide

end Zscii

namespace ZString

variable {abbreviations : Abbreviations} {memory : Memory} {address table : Nat}

/-- The shifts that fill up the last word add nothing to the text. -/
theorem decodeFrom_replicate (n : Nat) (shift : Shift) (read : List Char) :
    decodeFrom abbreviations shift read (List.replicate n ZChar.shiftPunctuation) =
      .ok read.reverse := by
  induction n generalizing shift with
  | zero => rfl
  | succ n ih => rw [List.replicate_succ, decodeFrom_shiftPunctuation, ih]

theorem length_letters (alphabet : Alphabet) : alphabet.letters.length = 26 := by
  cases alphabet <;> decide

/-- The Z-character for the place of a letter stands for that letter. -/
theorem letter_of_place? {alphabet : Alphabet} {c : Char} {z : ZChar}
    (h : place? alphabet c = some z) : 6 ≤ z.val ∧ alphabet.letter z = c := by
  obtain ⟨i, found, rfl⟩ := Option.map_eq_some_iff.mp h
  obtain ⟨bound, eq⟩ := getD_of_idxOf? found '?'
  have count := length_letters alphabet
  have place : (ZChar.ofNat (i + 6)).val = i + 6 := Nat.mod_eq_of_lt (by omega)
  refine ⟨by omega, ?_⟩
  rw [Alphabet.letter, place, Nat.add_sub_cancel, eq]

/-- The letters of the alphabets have codes. -/
theorem shown_of_place? {alphabet : Alphabet} {c : Char} {z : ZChar}
    (h : place? alphabet c = some z) : Zscii.shown c = c := by
  obtain ⟨i, found, -⟩ := Option.map_eq_some_iff.mp h
  obtain ⟨bound, eq, -⟩ := List.idxOf?_eq_some_iff.mp found
  have coded : alphabet.letters.all (fun c => (Zscii.ofChar? c).isSome) = true := by
    cases alphabet <;> decide
  rw [Zscii.shown, if_pos (List.all_eq_true.mp coded c (eq ▸ List.getElem_mem bound))]

/-- With no shift in force the Z-characters add the text, whatever stands before and behind them,
and leave no shift in force. -/
def Reads (abbreviations : Abbreviations) (zchars : List ZChar) (text : List Char) : Prop :=
  ∀ read rest, decodeFrom abbreviations {} read (zchars ++ rest) =
    decodeFrom abbreviations {} (text.reverse ++ read) rest

theorem Reads.flatMap {α : Type} {zchars : α → List ZChar} {text : α → List Char} {parts : List α}
    (h : ∀ a ∈ parts, Reads abbreviations (zchars a) (text a)) :
    Reads abbreviations (parts.flatMap zchars) (parts.flatMap text) := by
  intro read rest
  induction parts generalizing read with
  | nil => rfl
  | cons a parts ih =>
    have first := h a List.mem_cons_self
    have others := ih fun b member => h b (List.mem_cons_of_mem a member)
    rw [List.flatMap_cons, List.append_assoc, first, others, List.flatMap_cons,
      List.reverse_append, List.append_assoc]

theorem reads_space : Reads abbreviations [ZChar.space] [' '] := by
  intro read rest
  rw [List.singleton_append, decodeFrom_space rest rfl]
  rfl

theorem reads_lower {z : ZChar} (letter : 6 ≤ z.val) :
    Reads abbreviations [z] [Alphabet.lower.letter z] := by
  intro read rest
  rw [List.singleton_append, decodeFrom_letter rest letter (by simp)]
  rfl

theorem reads_upper {z : ZChar} (letter : 6 ≤ z.val) :
    Reads abbreviations [ZChar.shiftUpper, z] [Alphabet.upper.letter z] := by
  intro read rest
  rw [List.cons_append, List.singleton_append, decodeFrom_shiftUpper,
    decodeFrom_letter rest letter (by simp [Shift.press])]
  rfl

theorem reads_punctuation {z : ZChar} (letter : 6 ≤ z.val) (plain : z ≠ ZChar.escape) :
    Reads abbreviations [ZChar.shiftPunctuation, z] [Alphabet.punctuation.letter z] := by
  intro read rest
  rw [List.cons_append, List.singleton_append, decodeFrom_shiftPunctuation,
    decodeFrom_letter rest letter (by simp [plain])]
  rfl

theorem reads_escaped (c : Char) : Reads abbreviations (escaped c) [Zscii.shown c] := by
  intro read rest
  have bound := Zscii.ofChar_lt c
  have code : (ZChar.ofNat (Zscii.ofChar c / 32)).val * 32 + (ZChar.ofNat (Zscii.ofChar c)).val =
      Zscii.ofChar c := by
    simp only [ZChar.ofNat]
    omega
  simp only [escaped, List.cons_append, List.nil_append]
  rw [decodeFrom_shiftPunctuation, decodeFrom_escape _ _ _ rfl, code, Zscii.toChar?_ofChar]
  rfl

/-- A character is read back by itself, or as a question mark if it has no code. -/
theorem reads_encodeChar (c : Char) : Reads abbreviations (encodeChar c) [Zscii.shown c] := by
  rw [encodeChar]
  split
  · next space =>
    subst space
    exact reads_space
  · next notSpace =>
    split
    · next newLine =>
      subst newLine
      exact reads_punctuation (by decide) (by decide)
    · split
      · next z lower =>
        obtain ⟨letter, eq⟩ := letter_of_place? lower
        rw [shown_of_place? lower, ← eq]
        exact reads_lower letter
      · next z _ upper =>
        obtain ⟨letter, eq⟩ := letter_of_place? upper
        rw [shown_of_place? upper, ← eq]
        exact reads_upper letter
      · next z _ _ punctuation =>
        obtain ⟨letter, eq⟩ := letter_of_place? punctuation
        -- In the place of the escape there is a space, which has been written as such.
        have plain : z ≠ ZChar.escape := by
          rintro rfl
          exact notSpace eq.symm
        rw [shown_of_place? punctuation, ← eq]
        exact reads_punctuation letter plain
      · exact reads_escaped c

theorem reads_encodeChars (text : List Char) :
    Reads abbreviations (encodeChars text) (text.map Zscii.shown) := by
  rw [List.map_eq_flatMap]
  exact Reads.flatMap fun c _ => reads_encodeChar c

/-! ### Whole strings -/

/-- Where Z-characters are stored that read as a text, the string is that text and takes as many
bytes as they do. -/
theorem Reads.decodeWith_eq {zchars : List ZChar} {text : List Char}
    (reads : Reads abbreviations zchars text) (stored : memory.Holds address (pack zchars)) :
    decodeWith abbreviations memory address = .ok (text, (pack zchars).length) := by
  have run : words memory address = packWords zchars :=
    (words_eq_iff stored.start_le).mpr (runs_packWords stored)
  obtain ⟨n, filled⟩ := unpack_packWords zchars
  have read : decodeFrom abbreviations {} [] ((packWords zchars).flatMap unpackWord) =
      .ok text := by
    rw [filled, reads, decodeFrom_replicate, List.append_nil, List.reverse_reverse]
  rw [ZString.decodeWith_eq, run, read, pack, Word.length_flatMap_bytes]
  rfl

/-- A piece of a text: characters, or an abbreviation, given by its bank, its place in there and the
text that it stands for. -/
inductive Segment where
  | plain (text : List Char)
  | abbreviation (bank : Fin 3) (index : ZChar) (text : List Char)
  deriving DecidableEq, Repr

namespace Segment

def text : Segment → List Char
  | plain text => text
  | abbreviation _ _ text => text

/-- The Z-characters of a piece; an abbreviation takes two, the first of them 1, 2 or 3. -/
def zchars : Segment → List ZChar
  | plain text => encodeChars text
  | abbreviation bank index _ => [ZChar.ofNat (bank.val + 1), index]

/-- An abbreviation has an entry in the table, which gives in words where its text stands. -/
def Listed (memory : Memory) (table : Nat) : Segment → Prop
  | plain _ => True
  | abbreviation bank index text =>
    let entry := table + (bank.val * 32 + index.val) * 2
    entry + 1 < memory.size ∧ memory.Holds ((memory.word entry).toNat * 2) (encode text)

instance (segment : Segment) : Decidable (segment.Listed memory table) :=
  match segment with
  | plain _ => inferInstanceAs (Decidable True)
  | abbreviation _ _ _ => inferInstanceAs (Decidable (_ ∧ _))

end Segment

theorem expand_of_listed {bank : Fin 3} {index : ZChar} {text : List Char}
    (listed : (Segment.abbreviation bank index text).Listed memory table) :
    expand memory table address (bank.val * 32 + index.val) = .ok (text.map Zscii.shown) := by
  obtain ⟨inside, stored⟩ := listed
  rw [expand_eq]
  dsimp only
  rw [if_neg (Nat.not_le_of_lt inside), (reads_encodeChars text).decodeWith_eq stored]
  rfl

theorem reads_segment {segment : Segment} (listed : segment.Listed memory table) :
    Reads (.ok (expand memory table address)) segment.zchars (segment.text.map Zscii.shown) := by
  cases segment with
  | plain text => exact reads_encodeChars text
  | abbreviation bank index text =>
    intro read rest
    have first : (ZChar.ofNat (bank.val + 1)).val = bank.val + 1 := Nat.mod_eq_of_lt (by omega)
    have known : expand memory table address
        (((ZChar.ofNat (bank.val + 1)).val - 1) * 32 + index.val) = .ok (text.map Zscii.shown) := by
      rw [first, Nat.add_sub_cancel]
      exact expand_of_listed listed
    show decodeFrom _ {} read (ZChar.ofNat (bank.val + 1) :: index :: rest) = _
    rw [decodeFrom_abbreviation _ _ (by omega) (by omega), known]
    rfl

/-- A text that has been put together and stored is read back with a question mark for each
character that has no code, and is as long as what has been stored. -/
theorem decode_pack {segments : List Segment}
    (listed : ∀ segment ∈ segments, segment.Listed memory table)
    (stored : memory.Holds address (pack (segments.flatMap Segment.zchars))) :
    decode memory address table =
      .ok ((segments.flatMap Segment.text).map Zscii.shown,
        (pack (segments.flatMap Segment.zchars)).length) := by
  have reads : Reads (.ok (expand memory table address)) (segments.flatMap Segment.zchars)
      (segments.flatMap fun segment => segment.text.map Zscii.shown) :=
    Reads.flatMap fun segment member => reads_segment (listed segment member)
  rw [List.map_flatMap]
  exact reads.decodeWith_eq stored

/-- Wherever a text is stored that has been put together from characters and abbreviations, it is
read back as `decode_pack` says; a text of characters that all have codes, and of no abbreviations,
is read back as it was. -/
theorem decode_of_stored (memory : Memory) (address table : Nat) :
    (∀ segments : List Segment, (∀ segment ∈ segments, segment.Listed memory table) →
      memory.Holds address (pack (segments.flatMap Segment.zchars)) →
      decode memory address table =
        .ok ((segments.flatMap Segment.text).map Zscii.shown,
          (pack (segments.flatMap Segment.zchars)).length)) ∧
    ∀ text : List Char, (∀ c ∈ text, (Zscii.ofChar? c).isSome) →
      memory.Holds address (encode text) →
      decode memory address table = .ok (text, (encode text).length) := by
  constructor
  · intro segments listed stored
    exact decode_pack listed stored
  · intro text coded stored
    have same : text.map Zscii.shown = text :=
      (List.map_congr_left fun c member => if_pos (coded c member)).trans (List.map_id text)
    have reads : Reads (.ok (expand memory table address)) (encodeChars text)
        (text.map Zscii.shown) := reads_encodeChars text
    rw [same] at reads
    exact reads.decodeWith_eq stored

/-- A text of all kinds of pieces: letters of each alphabet, an accented letter, a character without
a code and an abbreviation. -/
def note : List Segment :=
  [.plain "Naïve ☃\n".toList, .abbreviation ⟨1, by decide⟩ (ZChar.ofNat 3) "The ".toList,
    .plain "100".toList]

/-- The text of the abbreviation, the note from address 4 on, other bytes, and the entry of the
abbreviation in a table at address 0. -/
def noted : Memory :=
  (encode "The ".toList ++ pack (note.flatMap Segment.zchars) ++ List.replicate 50 0xFF ++
    [0, 0]).toArray

/-- The note is read with a question mark for the snowman; its abbreviation stands for itself. -/
theorem decode_noted :
    decode noted 4 0 = .ok ("Naïve ?\nThe 100".toList, 16) ∧
      decode noted 0 0 = .ok ("The ".toList, 4) := by
  have read := (decode_of_stored noted 4 0).1 note (by decide) (by decide +kernel)
  have coded : "The ".toList.all (fun c => (Zscii.ofChar? c).isSome) = true := by decide
  have alone := (decode_of_stored noted 0 0).2 "The ".toList (List.all_eq_true.mp coded)
    (by decide +kernel)
  exact ⟨read.trans (congrArg Except.ok (by decide +kernel)),
    alone.trans (congrArg Except.ok (by decide +kernel))⟩

end ZString

end ZMachine
