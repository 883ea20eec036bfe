import ZMachine.Proofs.Dictionary.Lookup
import ZMachine.Proofs.Machine.InputLine

/-!
# The tokens of a line

`Tokenized` says what the tokens of a line are by the stretches of the line that they stand for,
without an order in which the line is read: they leave out the spaces and nothing else, and each is
a separator or a run of letters that no letter adjoins. The words of the grammar of lines have these
stretches (`ranges_of_tokensOf`), so the tokens come out so for every line
(`tokenized_of_tokenize`).
-/

namespace ZMachine

namespace Token

/-- Where the token begins in the line; positions count from 1. -/
def start (t : Token) : Nat :=
  t.position - 1

/-- Where the line goes on behind the token. -/
def stop (t : Token) : Nat :=
  t.start + t.text.length

/-- The bytes of the line that the token stands for. -/
def codes (t : Token) (line : List UInt8) : List UInt8 :=
  (line.drop t.start).take t.text.length

end Token

namespace Dictionary

/-- The bytes from `start` up to before `stop` are letters, and no letter adjoins them. -/
structure MaximalRun (separators bytes : List UInt8) (start stop : Nat) : Prop where
  letters : ∀ i b, start ≤ i → i < stop → bytes[i]? = some b → IsLetter separators b
  unpreceded : ∀ i b, i + 1 = start → bytes[i]? = some b → ¬ IsLetter separators b
  unfollowed : ∀ b, bytes[stop]? = some b → ¬ IsLetter separators b

/-- The tokens of a line, by the stretches of the line that they stand for. -/
structure Tokenized (d : Dictionary) (memory : Memory) (bytes : List UInt8) (tokens : List Token) :
    Prop where
  within : ∀ t ∈ tokens, 1 ≤ t.position ∧ t.start < t.stop ∧ t.stop ≤ bytes.length
  ordered : tokens.Pairwise fun t later => t.stop ≤ later.start
  covers : ∀ i b, bytes[i]? = some b → ((∃ t ∈ tokens, t.start ≤ i ∧ i < t.stop) ↔ b ≠ space)
  kind : ∀ t ∈ tokens, (∃ b ∈ d.separators, b ≠ space ∧ t.codes bytes = [b]) ∨
    MaximalRun d.separators bytes t.start t.stop
  text_eq : ∀ t ∈ tokens, t.text = Zscii.text (t.codes bytes)
  entry_eq : ∀ t ∈ tokens, d.lookup memory t.text = .ok t.entry

variable {d : Dictionary} {memory : Memory} {line separators : List UInt8} {tokens : List Token}
  {words : List (Nat × List UInt8)} {t : Token}

theorem exists_lookup (fits : d.Fits memory.size) (word : List Char) :
    ∃ entry, d.lookup memory word = .ok entry := by
  obtain ⟨found, run⟩ : ∃ found,
      d.search memory (rank (ZString.dictionaryKey word)) 0 d.entryCount = .ok found :=
    exists_search fits (Nat.le_refl _)
  rw [lookup_eq, run]
  cases found with
  | none => exact ⟨_, rfl⟩
  | some address => exact ⟨_, rfl⟩

theorem exists_tokensOf (fits : d.Fits memory.size) (words : List (Nat × List UInt8)) :
    ∃ tokens, d.tokensOf memory words = .ok tokens := by
  induction words with
  | nil => exact ⟨[], rfl⟩
  | cons word rest ih =>
    obtain ⟨tokens, others⟩ := ih
    obtain ⟨entry, looked⟩ := exists_lookup fits (Zscii.text word.2)
    have first : d.tokenOf memory word.1 word.2 = .ok ⟨_, _, entry⟩ := except_bind_of_ok looked
    rw [tokensOf, except_bind_of_ok first, except_bind_of_ok others]
    exact ⟨_, rfl⟩

/-- Each token is that of a word. -/
theorem exists_word (h : d.tokensOf memory words = .ok tokens) (member : t ∈ tokens) :
    ∃ start codes, (start, codes) ∈ words ∧ t.text = Zscii.text codes ∧ t.position = start + 1 ∧
      d.lookup memory (Zscii.text codes) = .ok t.entry := by
  obtain ⟨i, inside, rfl⟩ := List.getElem_of_mem member
  have bound : i < words.length := length_of_tokensOf h ▸ inside
  obtain ⟨token, same, found⟩ := getElem?_of_tokensOf h (List.getElem?_eq_getElem bound)
  rw [List.getElem?_eq_getElem inside] at same
  cases same
  exact ⟨_, _, List.getElem_mem bound, found⟩

/-- Tokens reach as far as their words. -/
theorem ranges_of_tokensOf (h : d.tokensOf memory words = .ok tokens)
    (nonzero : ∀ word ∈ words, ∀ b ∈ word.2, b ≠ 0) :
    tokens.map (fun t => (t.start, t.stop)) =
      words.map fun word => (word.1, word.1 + word.2.length) := by
  apply List.ext_getElem?
  intro i
  rw [List.getElem?_map, List.getElem?_map]
  cases at_eq : words[i]? with
  | none =>
    have beyond : tokens[i]? = none := by
      rw [List.getElem?_eq_none_iff] at at_eq ⊢
      rwa [length_of_tokensOf h]
    rw [beyond]
    rfl
  | some word =>
    obtain ⟨token, same, text, position, -⟩ := getElem?_of_tokensOf h at_eq
    have length : token.text.length = word.2.length := by
      rw [text]
      exact Zscii.length_text (nonzero word (List.mem_of_getElem? at_eq))
    simp [same, Token.stop, Token.start, position, length]

/-- A word of letters is a run of the line that cannot be made longer. -/
theorem maximalRun_of_letters {before codes after : List UInt8}
    (all : ∀ b ∈ codes, IsLetter separators b)
    (unpreceded : ∀ b ∈ before.getLast?, ¬ IsLetter separators b)
    (unfollowed : ∀ b ∈ after.head?, ¬ IsLetter separators b) :
    MaximalRun separators (before ++ codes ++ after) before.length
      (before.length + codes.length) := by
  refine ⟨fun i b begun unended stands => ?_, fun i b ends stands => ?_, fun b stands => ?_⟩
  · rw [List.append_assoc, List.getElem?_append_right begun,
      List.getElem?_append_left (by omega)] at stands
    exact all b (List.mem_of_getElem? stands)
  · rw [List.append_assoc, List.getElem?_append_left (by omega)] at stands
    refine unpreceded b ?_
    rw [List.getLast?_eq_getElem?, ← ends]
    exact stands
  · rw [List.getElem?_append_right (by simp), List.length_append, Nat.sub_self] at stands
    refine unfollowed b ?_
    rw [List.head?_eq_getElem?]
    exact stands

theorem codes_of_word {before codes after : List UInt8} (nonzero : ∀ b ∈ codes, b ≠ 0)
    (text : t.text = Zscii.text codes) (position : t.position = before.length + 1) :
    t.start = before.length ∧ t.stop = before.length + codes.length ∧
      t.codes (before ++ codes ++ after) = codes := by
  have start_eq : t.start = before.length := by rw [Token.start, position, Nat.add_sub_cancel]
  have length : t.text.length = codes.length := by rw [text, Zscii.length_text nonzero]
  refine ⟨start_eq, by rw [Token.stop, start_eq, length], ?_⟩
  rw [Token.codes, start_eq, length, List.append_assoc, List.drop_left, List.take_left]

/-- A token is a word that stands where the token says. -/
theorem exists_stretch (nonzero : ∀ b ∈ line, b ≠ 0) (h : d.tokenize memory line = .ok tokens)
    (member : t ∈ tokens) :
    ∃ before codes after, line = before ++ codes ++ after ∧
      IsWord d.separators before codes after ∧ 1 ≤ t.position ∧ t.start = before.length ∧
      t.stop = before.length + codes.length ∧ t.codes line = codes ∧
      t.text = Zscii.text codes ∧ d.lookup memory t.text = .ok t.entry := by
  rw [tokenize_eq] at h
  obtain ⟨start, codes, among, text, position, looked⟩ := exists_word h member
  obtain ⟨before, after, rfl, begins, word⟩ := splits_of_wordsFrom.isWord among
  have nonzeroCodes : ∀ b ∈ codes, b ≠ 0 := fun b member => nonzero b (by simp [member])
  have begins_at : t.position = before.length + 1 := by omega
  obtain ⟨start_eq, stop_eq, codes_eq⟩ : t.start = before.length ∧
      t.stop = before.length + codes.length ∧ t.codes (before ++ codes ++ after) = codes :=
    codes_of_word nonzeroCodes text begins_at
  exact ⟨before, codes, after, rfl, word, by omega, start_eq, stop_eq, codes_eq, text,
    text ▸ looked⟩

/-- The tokens of a line are found whenever the dictionary lies in memory; whatever they are, they
divide the line as they should. -/
theorem tokenized_of_tokenize (nonzero : ∀ b ∈ line, b ≠ 0) :
    (d.Fits memory.size → ∃ tokens, d.tokenize memory line = .ok tokens) ∧
      ∀ tokens, d.tokenize memory line = .ok tokens → Tokenized d memory line tokens := by
  refine ⟨fun fits => tokenize_eq d memory line ▸ exists_tokensOf fits _, fun tokens h => ?_⟩
  have splits : Splits d.separators 0 line (wordsFrom d.separators 0 [] line) :=
    splits_of_wordsFrom
  have nonzeroWords : ∀ word ∈ wordsFrom d.separators 0 [] line, ∀ b ∈ word.2, b ≠ 0 := by
    intro word among b member
    obtain ⟨before, after, line_eq, -⟩ := splits.stands (show (word.1, word.2) ∈ _ from among)
    exact nonzero b (by simp [line_eq, member])
  have ranges := ranges_of_tokensOf (tokenize_eq d memory line ▸ h) nonzeroWords
  constructor
  case within =>
    intro t member
    obtain ⟨before, codes, after, rfl, word, position, start_eq, stop_eq, -⟩ :=
      exists_stretch nonzero h member
    have size : 0 < codes.length := List.length_pos_iff.mpr word.ne_nil
    simp only [List.length_append]
    omega
  case ordered =>
    have apart : (tokens.map fun t => (t.start, t.stop)).Pairwise
        fun range later => range.2 ≤ later.1 := by
      rw [ranges, List.pairwise_map]
      exact splits.pairwise
    exact List.pairwise_map.mp apart
  case covers =>
    intro i b stands
    have same : (∃ t ∈ tokens, t.start ≤ i ∧ i < t.stop) ↔
        ∃ word ∈ wordsFrom d.separators 0 [] line, word.1 ≤ i ∧ i < word.1 + word.2.length := by
      have among := congrArg (fun all => ∃ range ∈ all, range.1 ≤ i ∧ i < range.2) ranges
      simpa only [List.mem_map, exists_exists_and_eq_and, eq_iff_iff] using among
    rw [same]
    simpa only [Nat.zero_add] using splits.covers stands
  case kind =>
    intro t member
    obtain ⟨before, codes, after, rfl, word, -, start_eq, stop_eq, codes_eq, -⟩ :=
      exists_stretch nonzero h member
    cases word with
    | separator ne listed eq => exact .inl ⟨_, listed, ne, codes_eq.trans eq⟩
    | letters _ all unpreceded unfollowed =>
      right
      rw [start_eq, stop_eq]
      exact maximalRun_of_letters all unpreceded unfollowed
  case text_eq =>
    intro t member
    obtain ⟨_, _, _, -, -, -, -, -, codes_eq, text, -⟩ := exists_stretch nonzero h member
    rw [codes_eq, text]
  case entry_eq =>
    intro t member
    obtain ⟨_, _, _, -, -, -, -, -, -, -, looked⟩ := exists_stretch nonzero h member
    exact looked

/-- The bytes of ` take,  lamp `. -/
def spacedLine : List UInt8 :=
  [32, 116, 97, 107, 101, 44, 32, 32, 108, 97, 109, 112, 32]

/-- Spaces stay out of the words also where the dictionary lists the space as a separator. -/
theorem tokenized_spacedLine :
    ∃ tokens,
      { ofThreeWords with separators := [44, 32] }.tokenize threeWords spacedLine = .ok tokens ∧
        Tokenized { ofThreeWords with separators := [44, 32] } threeWords spacedLine tokens ∧
        tokens = [⟨"take".toList, 2, 13⟩, ⟨",".toList, 6, 0⟩, ⟨"lamp".toList, 9, 5⟩] := by
  have nonzero : ∀ b ∈ spacedLine, b ≠ 0 := by simp [spacedLine]
  have found : { ofThreeWords with separators := [44, 32] }.tokenize threeWords spacedLine =
      .ok [⟨"take".toList, 2, 13⟩, ⟨",".toList, 6, 0⟩, ⟨"lamp".toList, 9, 5⟩] := by
    decide +kernel
  exact ⟨_, found, (tokenized_of_tokenize nonzero).2 _ found, rfl⟩

end Dictionary

end ZMachine
