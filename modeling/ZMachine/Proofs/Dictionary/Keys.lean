import ZMachine.Proofs.Dictionary.Lookup
import ZMachine.Proofs.ZString.Coded

/-!
# What a key stands for

The key of a word has room for six Z-characters, so that it may end within the shift or the escape
of a character. Of such a character nothing shows when the key is read (`decodeFrom_cut`), nor do
the shifts that fill up a key. A key therefore stands for the longest beginning of the lower-case
word of which all Z-characters have room (`keyText`), and two words share a key only if they share
that beginning.
-/

namespace ZMachine.ZString

open Zscii

variable {abbreviations : Abbreviations} {memory : Memory} {address room : Nat}
  {text front word v w : List Char}

/-- As many characters from the start of a text as there is room for all their Z-characters. -/
def fitting (room : Nat) : List Char → List Char
  | [] => []
  | c :: rest =>
    if (encodeChar c).length ≤ room then c :: fitting (room - (encodeChar c).length) rest else []

/-- The beginning of a word, in lower case, that its key stands for. -/
def keyText (word : List Char) : List Char :=
  fitting keyLength (Text.lowercase word)

/-- Of the beginnings of a text whose Z-characters have room, this is the longest. -/
structure LongestFitting (room : Nat) (text front : List Char) : Prop where
  beginning : front <+: text
  fits : (encodeChars front).length ≤ room
  longest : ∀ other, other <+: text → (encodeChars other).length ≤ room → other <+: front

theorem encodeChars_cons (c : Char) (rest : List Char) :
    encodeChars (c :: rest) = encodeChar c ++ encodeChars rest :=
  List.flatMap_cons

theorem longest_fitting (room : Nat) (text : List Char) :
    LongestFitting room text (fitting room text) := by
  induction text generalizing room with
  | nil => exact ⟨List.nil_prefix, Nat.zero_le room, fun _ beginning _ => beginning⟩
  | cons c rest ih =>
    rw [fitting]
    split
    · next roomy =>
      obtain ⟨beginning, fits, longest⟩ := ih (room - (encodeChar c).length)
      refine ⟨List.cons_prefix_cons.mpr ⟨rfl, beginning⟩, ?_, fun other start short => ?_⟩
      · rw [encodeChars_cons, List.length_append]
        omega
      · cases other with
        | nil => exact List.nil_prefix
        | cons d others =>
          obtain ⟨rfl, tail⟩ := List.cons_prefix_cons.mp start
          rw [encodeChars_cons, List.length_append] at short
          exact List.cons_prefix_cons.mpr ⟨rfl, longest others tail (by omega)⟩
    · next narrow =>
      refine ⟨List.nil_prefix, Nat.zero_le room, fun other start short => ?_⟩
      cases other with
      | nil => exact List.nil_prefix
      | cons d others =>
        obtain ⟨rfl, -⟩ := List.cons_prefix_cons.mp start
        rw [encodeChars_cons, List.length_append] at short
        omega

/-- A text that fits as a whole is not cut. -/
theorem fitting_eq_self (fits : (encodeChars text).length ≤ room) : fitting room text = text := by
  obtain ⟨beginning, -, longest⟩ := longest_fitting room text
  exact beginning.eq_of_length_le (longest text List.prefix_rfl fits).length_le

/-! ### Reading a key -/

/-- The forms of a character: a letter, with or without a shift, or an escape. -/
theorem encodeChar_eq (c : Char) :
    (∃ z, encodeChar c = [z]) ∨ (∃ z, encodeChar c = [ZChar.shiftUpper, z]) ∨
      (∃ z, encodeChar c = [ZChar.shiftPunctuation, z]) ∨
        ∃ high low, encodeChar c = [ZChar.shiftPunctuation, ZChar.escape, high, low] := by
  rw [encodeChar]
  split
  · exact .inl ⟨_, rfl⟩
  · split
    · exact .inr (.inr (.inl ⟨_, rfl⟩))
    · split
      · exact .inl ⟨_, rfl⟩
      · exact .inr (.inl ⟨_, rfl⟩)
      · exact .inr (.inr (.inl ⟨_, rfl⟩))
      · exact .inr (.inr (.inr ⟨_, _, rfl⟩))

/-- A character that is cut off before its last Z-character adds nothing. -/
theorem decodeFrom_cut {n : Nat} {c : Char} (cut : n < (encodeChar c).length) (read : List Char) :
    decodeFrom abbreviations {} read ((encodeChar c).take n) = .ok read.reverse := by
  rcases encodeChar_eq c with ⟨z, eq⟩ | ⟨z, eq⟩ | ⟨z, eq⟩ | ⟨high, low, eq⟩
  all_goals rw [eq] at cut ⊢
  · obtain rfl : n = 0 := Nat.lt_one_iff.mp cut
    rfl
  · match n, cut with
    | 0, _ => rfl
    | 1, _ => exact decodeFrom_shiftUpper []
  · match n, cut with
    | 0, _ => rfl
    | 1, _ => exact decodeFrom_shiftPunctuation []
  · match n, cut with
    | 0, _ => rfl
    | 1, _ => exact decodeFrom_shiftPunctuation []
    | 2, _ =>
      exact (decodeFrom_shiftPunctuation _).trans (decodeFrom_cutEscape Nat.two_pos rfl)
    | 3, _ =>
      exact (decodeFrom_shiftPunctuation _).trans (decodeFrom_cutEscape Nat.one_lt_two rfl)

/-- By induction on the text: characters are read as long as they have room, and neither the one
that is cut nor the shifts that fill up add anything. -/
theorem decodeFrom_take (filling : Nat) (room : Nat) (text read : List Char) :
    decodeFrom abbreviations {} read
        ((encodeChars text ++ List.replicate filling ZChar.shiftPunctuation).take room) =
      .ok (read.reverse ++ (fitting room text).map shown) := by
  induction text generalizing room read with
  | nil =>
    rw [encodeChars, List.flatMap_nil, List.nil_append, List.take_replicate,
      decodeFrom_replicate, fitting, List.map_nil, List.append_nil]
  | cons c rest ih =>
    rw [encodeChars_cons, List.append_assoc, fitting]
    split
    · next roomy =>
      rw [List.take_append, List.take_of_length_le roomy, reads_encodeChar, ih]
      simp
    · next narrow =>
      rw [List.take_append_of_le_length (Nat.le_of_not_le narrow),
        decodeFrom_cut (Nat.lt_of_not_le narrow), List.map_nil, List.append_nil]

/-- Six Z-characters fill two words without any more. -/
theorem unpack_packWords_of_length {zchars : List ZChar} (six : zchars.length = keyLength) :
    (packWords zchars).flatMap unpackWord = zchars := by
  match zchars, six with
  | [a, b, c, d, e, f], _ => simp [packWords, unpackWord_packWord]

/-- Wherever a key stands, it is read as the beginning of the word that has room in it. -/
theorem decode_of_holds_key (table : Nat) (stored : memory.Holds address (dictionaryKey word)) :
    decode memory address table =
      .ok ((keyText word).map shown, (dictionaryKey word).length) := by
  have run := (words_eq_iff stored.start_le).mpr (runs_packWords stored)
  have six : ((encodeChars (Text.lowercase word) ++
      List.replicate keyLength ZChar.shiftPunctuation).take keyLength).length = keyLength := by
    rw [List.length_take, List.length_append, List.length_replicate]
    omega
  rw [decode, decodeWith_eq, run, keyZChars, unpack_packWords_of_length six, decodeFrom_take,
    dictionaryKey, pack, Word.length_flatMap_bytes]
  rfl

/-! ### Words with one key -/

theorem coded_keyText (coded : Coded word) : Coded (keyText word) :=
  coded.lowercase.of_isPrefix (longest_fitting keyLength (Text.lowercase word)).beginning

/-- Words of characters with codes that share a key share what it stands for, because the same bytes
are read as one text. -/
theorem keyText_eq_of_key_eq (hv : Coded v) (hw : Coded w)
    (same : dictionaryKey v = dictionaryKey w) : keyText v = keyText w := by
  have stored : Memory.Holds (dictionaryKey v).toArray 0 (dictionaryKey v) :=
    Memory.holds_toArray _
  have asV := decode_of_holds_key 0 stored
  have asW := decode_of_holds_key 0 (same ▸ stored)
  rw [(coded_keyText hv).map_shown] at asV
  rw [(coded_keyText hw).map_shown, ← same, asV] at asW
  exact congrArg Prod.fst (Except.ok.inj asW)

/-- What the key of a word means. It stands for the longest beginning of the lower-case word that
has room in it, and is read as that beginning wherever it stands, with question marks for characters
without codes. Words of characters with codes share a key only if they share that beginning; if
their lower-case forms fit, only if these are the same, and then they do share it. -/
theorem meaning_of_dictionaryKey (word : List Char) :
    LongestFitting keyLength (Text.lowercase word) (keyText word) ∧
      (∀ (memory : Memory) (address table : Nat), memory.Holds address (dictionaryKey word) →
        decode memory address table = .ok ((keyText word).map shown, 4)) ∧
      ∀ other, Coded word → Coded other →
        (dictionaryKey word = dictionaryKey other → keyText word = keyText other) ∧
        ((encodeChars (Text.lowercase word)).length ≤ keyLength →
          (encodeChars (Text.lowercase other)).length ≤ keyLength →
            (dictionaryKey word = dictionaryKey other ↔
              Text.lowercase word = Text.lowercase other)) := by
  refine ⟨longest_fitting keyLength _, fun memory address table stored => ?_,
    fun other coded codedOther => ⟨keyText_eq_of_key_eq coded codedOther, fun fits fitsOther => ?_⟩⟩
  · have read := decode_of_holds_key table stored
    rwa [length_dictionaryKey] at read
  · constructor
    · intro same
      have front := keyText_eq_of_key_eq coded codedOther same
      rwa [keyText, keyText, fitting_eq_self fits, fitting_eq_self fitsOther] at front
    · intro same
      rw [dictionaryKey, dictionaryKey, keyZChars, keyZChars, same]

/-- The key of a word that is cut within the escape of its last letter stands for the letters before
it, and a word of which all fits has its key in upper case, too. -/
theorem meaning_of_accented :
    keyText "Café".toList = "caf".toList ∧
      decode (dictionaryKey "Café".toList).toArray 0 0 = .ok ("caf".toList, 4) ∧
      Coded "Fée".toList ∧ Coded "FÉE".toList ∧
      (encodeChars (Text.lowercase "Fée".toList)).length ≤ keyLength ∧
      dictionaryKey "Fée".toList = dictionaryKey "FÉE".toList := by
  have cut : keyText "Café".toList = "caf".toList := by decide +kernel
  have read := (meaning_of_dictionaryKey "Café".toList).2.1 _ 0 0 (Memory.holds_toArray _)
  rw [cut] at read
  have coded : Coded "Fée".toList := by decide +kernel
  have codedOther : Coded "FÉE".toList := by decide +kernel
  have fits : (encodeChars (Text.lowercase "Fée".toList)).length ≤ keyLength := by decide +kernel
  have fitsOther : (encodeChars (Text.lowercase "FÉE".toList)).length ≤ keyLength := by
    decide +kernel
  have shared := ((meaning_of_dictionaryKey "Fée".toList).2.2 "FÉE".toList coded codedOther).2 fits
    fitsOther
  exact ⟨cut, read.trans (congrArg Except.ok (by decide +kernel)), coded, codedOther, fits,
    shared.mpr (by decide +kernel)⟩

end ZMachine.ZString
