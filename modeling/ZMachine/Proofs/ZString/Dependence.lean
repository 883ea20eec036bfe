import ZMachine.Proofs.ZString.Decoding
import ZMachine.Proofs.ZString.Words

/-!
# What a text depends on

The text of a string depends on its own words and, for each abbreviation that it refers to, on the
entry of that in the table and on the words of its text (`decode_congr`). Which abbreviations these
are, `references` reads off the Z-characters with no regard to what they stand for.
-/

namespace ZMachine.ZString

variable {memory other : Memory} {start table : Nat}

/-- The numbers of the abbreviations that Z-characters refer to. -/
def references (shift : Shift) : List ZChar → List Nat
  | [] => []
  | z :: rest =>
    if z.val = 0 then references shift.settle rest
    else if z.val ≤ 3 then
      match rest with
      | [] => []
      | index :: rest => ((z.val - 1) * 32 + index.val) :: references shift.settle rest
    else if z = ZChar.shiftUpper then references (shift.press z .upper) rest
    else if z = ZChar.shiftPunctuation then references (shift.press z .punctuation) rest
    else if shift.current = .punctuation ∧ z = ZChar.escape then
      match rest with
      | _ :: _ :: rest => references shift.settle rest
      | _ => []
    else references shift.settle rest

/-- The address is that of a byte of the string at `start`. -/
def Spans (memory : Memory) (start address : Nat) : Prop :=
  start ≤ address ∧ address < start + 2 * (words memory start).length

/-- The address is that of a byte of an abbreviation to which the string at `start` refers: of its
entry in the table or of its text. -/
def Borrows (memory : Memory) (start table address : Nat) : Prop :=
  ∃ number ∈ references {} ((words memory start).flatMap unpackWord),
    address = table + number * 2 ∨ address = table + number * 2 + 1 ∨
      Spans memory ((memory.word (table + number * 2)).toNat * 2) address

theorem Runs.congr {ws : List UInt16} (h : Runs memory start ws) (size : other.size = memory.size)
    (same : ∀ a, start ≤ a → a < start + 2 * ws.length → other.byte a = memory.byte a) :
    Runs other start ws where
  stored := h.stored.congr size (by rwa [Word.length_flatMap_bytes])
  unmarked := h.unmarked
  ends := size ▸ h.ends

theorem words_congr (size : other.size = memory.size)
    (same : ∀ a, Spans memory start a → other.byte a = memory.byte a) :
    words other start = words memory start := by
  by_cases le : start ≤ memory.size
  · have runs : Runs memory start (words memory start) := (words_eq_iff le).mp rfl
    exact (words_eq_iff (size ▸ le)).mpr (runs.congr size fun a ge lt => same a ⟨ge, lt⟩)
  · rw [words, words.eq_def memory, if_neg (by omega), if_neg (by omega)]

/-- Z-characters read alike under expansions that agree on the abbreviations they refer to. -/
theorem decodeFrom_congr {f g : Nat → Except MachineError (List Char)} {shift : Shift}
    {read : List Char} {zchars : List ZChar}
    (same : ∀ number ∈ references shift zchars, f number = g number) :
    decodeFrom (.ok f) shift read zchars = decodeFrom (.ok g) shift read zchars := by
  -- The cases of `references` are those of `decodeFrom`; expansions are asked for in the fourth.
  fun_induction references shift zchars generalizing read with
  | case1 => rfl
  | case2 shift z rest space ih => rw [decodeFrom_space _ space, decodeFrom_space _ space, ih same]
  | case3 shift z notSpace prefixed =>
    rw [decodeFrom_cutAbbreviation notSpace prefixed, decodeFrom_cutAbbreviation notSpace prefixed]
  | case4 shift z notSpace prefixed index rest ih =>
    have known := same _ List.mem_cons_self
    have others := fun number member => same number (List.mem_cons_of_mem _ member)
    rw [decodeFrom_abbreviation _ _ notSpace prefixed,
      decodeFrom_abbreviation _ _ notSpace prefixed, known]
    congr 1
    funext text
    exact ih others
  | case5 shift rest notSpace prefixed ih =>
    rw [decodeFrom_shiftUpper, decodeFrom_shiftUpper, ih same]
  | case6 shift rest notSpace prefixed upper ih =>
    rw [decodeFrom_shiftPunctuation, decodeFrom_shiftPunctuation, ih same]
  | case7 shift z notSpace prefixed upper punctuation escape high low rest ih =>
    rw [escape.2, decodeFrom_escape _ _ _ escape.1, decodeFrom_escape _ _ _ escape.1, ih same]
  | case8 shift z rest notSpace prefixed upper punctuation escape cut =>
    have short : rest.length < 2 := by
      match rest with
      | [] => decide
      | [_] => exact Nat.one_lt_two
      | high :: low :: rest => exact absurd rfl (cut high low rest)
    rw [escape.2, decodeFrom_cutEscape short escape.1, decodeFrom_cutEscape short escape.1]
  | case9 shift z rest notSpace prefixed upper punctuation plain ih =>
    have letter := letter_of_ne prefixed upper punctuation
    rw [decodeFrom_letter _ letter plain, decodeFrom_letter _ letter plain, ih same]

theorem expand_congr {address number : Nat} (size : other.size = memory.size)
    (high : other.byte (table + number * 2) = memory.byte (table + number * 2))
    (low : other.byte (table + number * 2 + 1) = memory.byte (table + number * 2 + 1))
    (same : ∀ a, Spans memory ((memory.word (table + number * 2)).toNat * 2) a →
      other.byte a = memory.byte a) :
    expand other table address number = expand memory table address number := by
  have entry : other.word (table + number * 2) = memory.word (table + number * 2) := by
    rw [Memory.word, Memory.word, high, low]
  simp only [expand_eq, decodeWith_eq]
  rw [size, entry, words_congr size same]

/-- The text of a string depends on its own bytes and those of its abbreviations alone. -/
theorem decode_congr (size : other.size = memory.size)
    (own : ∀ a, Spans memory start a → other.byte a = memory.byte a)
    (borrowed : ∀ a, Borrows memory start table a → other.byte a = memory.byte a) :
    decode other start table = decode memory start table := by
  have alike : ∀ number ∈ references {} ((words memory start).flatMap unpackWord),
      expand other table start number = expand memory table start number := by
    intro number member
    apply expand_congr size
    · exact borrowed _ ⟨number, member, .inl rfl⟩
    · exact borrowed _ ⟨number, member, .inr (.inl rfl)⟩
    · intro a spans
      exact borrowed a ⟨number, member, .inr (.inr spans)⟩
  simp only [decode, decodeWith_eq]
  rw [words_congr size own, decodeFrom_congr alike]

end ZMachine.ZString
