import ZMachine.Machine.InputLine
import ZMachine.Proofs.Dictionary.Words
import ZMachine.Proofs.Machine.Write
import ZMachine.Proofs.Memory
import ZMachine.Proofs.Zscii

/-!
# What a line leaves in the buffers

Storing a line writes two stretches of memory: its codes with a zero byte behind them, and the count
of its words with their blocks behind it (`eq_of_storeLine`). The buffer takes 254 codes at most, so
that no length, position or count has to be cut to fit its byte. `Stored` says what a story finds
in its buffers, with the words given by the grammar of lines.
-/

namespace ZMachine

namespace Dictionary

variable {d : Dictionary} {memory : Memory} {words : List (Nat × List UInt8)} {tokens : List Token}

/-- Each word has its token, in the order of the words. -/
theorem getElem?_of_tokensOf {i start : Nat} {codes : List UInt8}
    (h : d.tokensOf memory words = .ok tokens) (word : words[i]? = some (start, codes)) :
    ∃ token, tokens[i]? = some token ∧ token.text = Zscii.text codes ∧
      token.position = start + 1 ∧ d.lookup memory (Zscii.text codes) = .ok token.entry := by
  induction words generalizing tokens i with
  | nil => cases word
  | cons first rest ih =>
    obtain ⟨token, one, others⟩ := except_bind_eq_ok.mp h
    obtain ⟨behind, found, eq⟩ := except_bind_eq_ok.mp others
    cases eq
    cases i with
    | zero =>
      cases word
      obtain ⟨entry, looked, eq⟩ := except_bind_eq_ok.mp one
      cases eq
      exact ⟨_, rfl, rfl, rfl, looked⟩
    | succ i =>
      rw [List.getElem?_cons_succ]
      exact ih found word

theorem length_of_tokensOf (h : d.tokensOf memory words = .ok tokens) :
    tokens.length = words.length := by
  induction words generalizing tokens with
  | nil =>
    cases h
    rfl
  | cons first rest ih =>
    obtain ⟨token, -, others⟩ := except_bind_eq_ok.mp h
    obtain ⟨behind, found, eq⟩ := except_bind_eq_ok.mp others
    cases eq
    rw [List.length_cons, List.length_cons, ih found]

end Dictionary

namespace Machine

/-- The code that a character of a line gets: none for line ends and what has no code. -/
def typedCode? (c : Char) : Option UInt8 :=
  if c = '\n' ∨ c = '\r' then none
  else if Text.isBlank c then some Dictionary.space
  else (Zscii.ofChar? c).map fun code => .ofNat code

/-- The codes of a line are those of its lower-case characters, one by one. -/
theorem lineCodes_eq (line : List Char) :
    lineCodes line = (Text.lowercase line).filterMap typedCode? := by
  rw [lineCodes, ← List.filterMap_eq_filter, List.map_filterMap, List.filterMap_map,
    List.filterMap_filterMap]
  congr 1
  funext c
  by_cases ended : c = '\n' ∨ c = '\r'
  · have dropped : ¬ (c ≠ '\n' ∧ c ≠ '\r') := fun kept => ended.elim kept.1 kept.2
    simp [typedCode?, ended, Option.guard, dropped]
  · have kept : c ≠ '\n' ∧ c ≠ '\r' := not_or.mp ended
    by_cases blank : Text.isBlank c = true
    · simp [typedCode?, Option.guard, kept, blank, Zscii.ofChar?_space, Dictionary.space]
    · simp [typedCode?, Option.guard, kept, blank]

theorem typedCode?_ne_zero {c : Char} {b : UInt8} (h : typedCode? c = some b) : b ≠ 0 := by
  simp only [typedCode?] at h
  split at h
  · cases h
  · split at h
    · cases h
      decide
    · obtain ⟨code, coded, rfl⟩ := Option.map_eq_some_iff.mp h
      intro zero
      have small := Zscii.ofChar?_lt coded
      have large := Zscii.le_of_ofChar? coded
      have vanishes := congrArg UInt8.toNat zero
      simp only [UInt8.toNat_ofNat', UInt8.toNat_zero] at vanishes
      omega

theorem lineCodes_ne_zero {line : List Char} {b : UInt8} (member : b ∈ lineCodes line) : b ≠ 0 := by
  rw [lineCodes_eq] at member
  obtain ⟨c, -, code⟩ := List.mem_filterMap.mp member
  exact typedCode?_ne_zero code

/-- A character with a code other than that of a line end has one code, too, in lower case. -/
theorem length_codes_lowercaseChar {c : Char} (coded : (Zscii.ofChar? c).isSome = true)
    (inLine : c ≠ '\n') : ((Text.lowercaseChar c).filterMap typedCode?).length = 1 := by
  obtain ⟨d, one, code, stays⟩ := Zscii.exists_lowercaseChar coded inLine
  have stays' : d ≠ '\r' := by
    rintro rfl
    exact absurd code (by decide)
  have typed : (typedCode? d).isSome := by
    rw [typedCode?, if_neg (not_or.mpr ⟨stays, stays'⟩)]
    split
    · rfl
    · rw [Option.isSome_map]
      exact code
  obtain ⟨b, eq⟩ := Option.isSome_iff_exists.mp typed
  rw [one, List.filterMap_cons_some eq]
  rfl

/-- All characters of a line have codes, and none of them ends a line. -/
def Typeable (line : List Char) : Prop :=
  ∀ c ∈ line, (Zscii.ofChar? c).isSome = true ∧ c ≠ '\n'

instance (line : List Char) : Decidable (Typeable line) :=
  List.decidableBAll _ line

theorem lineCodes_cons (c : Char) (line : List Char) :
    lineCodes (c :: line) = (Text.lowercaseChar c).filterMap typedCode? ++ lineCodes line := by
  rw [lineCodes_eq, lineCodes_eq, Text.lowercase, List.flatMap_cons, List.filterMap_append]
  rfl

/-- It makes no difference whether characters or codes are counted. -/
theorem lineCodes_take {line : List Char} (typeable : Typeable line) (n : Nat) :
    lineCodes (line.take n) = (lineCodes line).take n := by
  induction line generalizing n with
  | nil =>
    rw [List.take_nil]
    exact List.take_nil.symm
  | cons c rest ih =>
    obtain ⟨⟨coded, inLine⟩, others⟩ := List.forall_mem_cons.mp typeable
    obtain ⟨code, one⟩ := List.length_eq_one_iff.mp (length_codes_lowercaseChar coded inLine)
    cases n with
    | zero => rfl
    | succ n =>
      rw [List.take_succ_cons, lineCodes_cons, lineCodes_cons, one, ih others]
      rfl

/-- The block of a word in a parse buffer. -/
def block (token : Token) : List UInt8 :=
  Word.bytes token.entry ++ [.ofNat token.text.length, .ofNat token.position]

@[simp] theorem length_block (token : Token) : (block token).length = 4 := rfl

variable {d : Dictionary} {m m' : Machine} {line : List Char} {text parse address : Nat}
  {tokens : List Token}

theorem eq_of_writeBlock {token : Token} (h : writeBlock address token m = .ok () m') :
    address + 4 ≤ m.memory.size ∧
      m' = { m with memory := m.memory.putBytes address (block token) } := by
  obtain ⟨⟨⟩, entered, entry, rest⟩ := bind_eq_ok.mp h
  obtain ⟨⟨⟩, halfway, high, low⟩ := bind_eq_ok.mp entry
  obtain ⟨⟨⟩, measured, length, position⟩ := bind_eq_ok.mp rest
  obtain ⟨-, rfl⟩ := eq_of_writeByte high
  obtain ⟨-, rfl⟩ := eq_of_writeByte low
  obtain ⟨-, rfl⟩ := eq_of_writeByte length
  obtain ⟨inside, rfl⟩ := eq_of_writeByte position
  simp only [withByte, Memory.size_put] at inside
  exact ⟨inside, rfl⟩

theorem eq_of_writeBlocks (h : writeBlocks address tokens m = .ok () m') :
    (tokens ≠ [] → address + 4 * tokens.length ≤ m.memory.size) ∧
      m' = { m with memory := m.memory.putBytes address (tokens.flatMap block) } := by
  induction tokens generalizing m address with
  | nil =>
    cases h
    exact ⟨nofun, rfl⟩
  | cons token rest ih =>
    obtain ⟨⟨⟩, mid, first, others⟩ := bind_eq_ok.mp h
    obtain ⟨inside, rfl⟩ := eq_of_writeBlock first
    obtain ⟨fits, rfl⟩ := ih others
    constructor
    · intro _
      by_cases none : rest = []
      · subst none
        exact inside
      · have upTo := fits none
        simp only [Memory.size_putBytes] at upTo
        simp only [List.length_cons]
        omega
    · rw [List.flatMap_cons, Memory.putBytes_append]
      rfl

theorem length_flatMap_block (tokens : List Token) :
    (tokens.flatMap block).length = 4 * tokens.length := by
  induction tokens with
  | nil => rfl
  | cons token rest ih =>
    rw [List.flatMap_cons, List.length_append, length_block, ih, List.length_cons]
    omega

/-- A block has the length and the place of its word if they fit a byte. -/
theorem fields_of_holds {memory : Memory} {token : Token} (short : token.text.length < 0x100)
    (near : token.position < 0x100) (h : memory.Holds address (block token)) :
    memory.word address = token.entry ∧ (memory.byte (address + 2)).toNat = token.text.length ∧
      (memory.byte (address + 3)).toNat = token.position := by
  obtain ⟨-, entry, rest⟩ := Memory.holds_word.mp h
  obtain ⟨-, length, rest⟩ := Memory.holds_cons.mp rest
  obtain ⟨-, position, -⟩ := Memory.holds_cons.mp rest
  refine ⟨entry, ?_, ?_⟩
  · rw [length, UInt8.toNat_ofNat']
    omega
  · rw [position, UInt8.toNat_ofNat']
    omega

section Buffers

variable {memory : Memory} {codes : List UInt8}

/-- Memory with the codes of a line in the text buffer. -/
def withText (memory : Memory) (text : Nat) (codes : List UInt8) : Memory :=
  memory.putBytes (text + 1) (codes ++ [0])

@[simp] theorem size_withText : (withText memory text codes).size = memory.size :=
  Memory.size_putBytes ..

theorem holds_withText (inside : text + 1 + codes.length < memory.size) :
    (withText memory text codes).Holds (text + 1) (codes ++ [0]) := by
  apply Memory.holds_putBytes
  rw [List.length_append, List.length_singleton]
  omega

theorem byte_withText (outside : address ≤ text ∨ text + 1 + codes.length < address) :
    (withText memory text codes).byte address = memory.byte address := by
  apply Memory.byte_putBytes_of_outside
  simp only [List.length_append, List.length_singleton]
  omega

/-- Memory with the words of a line in the parse buffer. -/
def withWords (memory : Memory) (parse : Nat) (tokens : List Token) : Memory :=
  memory.putBytes (parse + 1) (.ofNat tokens.length :: tokens.flatMap block)

@[simp] theorem size_withWords : (withWords memory parse tokens).size = memory.size :=
  Memory.size_putBytes ..

theorem holds_withWords (inside : parse + 1 + 4 * tokens.length < memory.size) :
    (withWords memory parse tokens).Holds (parse + 1)
      (.ofNat tokens.length :: tokens.flatMap block) := by
  apply Memory.holds_putBytes
  rw [List.length_cons, length_flatMap_block]
  omega

theorem byte_withWords (outside : address ≤ parse ∨ parse + 1 + 4 * tokens.length < address) :
    (withWords memory parse tokens).byte address = memory.byte address := by
  apply Memory.byte_putBytes_of_outside
  rw [List.length_cons, length_flatMap_block]
  omega

end Buffers

/-- What is written: the codes of the line, then the words found with these in memory. -/
theorem eq_of_storeLine {codes : List UInt8} (given : parse ≠ 0)
    (cut : (lineCodes line).take (m.textCapacity text) = codes)
    (h : storeLine d line text parse m = .ok tokens m') :
    text + 1 + codes.length < m.memory.size ∧ parse + 1 + 4 * tokens.length < m.memory.size ∧
      (∃ found, d.tokenize (withText m.memory text codes) codes = .ok found ∧
        tokens = found.take ((withText m.memory text codes).byte parse).toNat) ∧
      m' = { m with memory := withWords (withText m.memory text codes) parse tokens } := by
  simp only [storeLine, get_bind, cut, if_neg given] at h
  obtain ⟨⟨⟩, typed, letters, rest⟩ := bind_eq_ok.mp h
  obtain ⟨⟨⟩, ended, zero, rest⟩ := bind_eq_ok.mp rest
  obtain ⟨-, rfl⟩ := eq_of_writeBytes letters
  obtain ⟨textInside, eq⟩ := eq_of_writeByte zero
  obtain rfl : ended = { m with memory := withText m.memory text codes } := by
    rw [eq, withText, Memory.putBytes_append]
    rfl
  obtain ⟨found, queried, search, rest⟩ := bind_eq_ok.mp rest
  obtain ⟨tokenized, rfl⟩ := query_eq_ok.mp search
  rw [get_bind] at rest
  obtain ⟨⟨⟩, counted, count, rest⟩ := bind_eq_ok.mp rest
  obtain ⟨⟨⟩, written, blocks, last⟩ := bind_eq_ok.mp rest
  obtain ⟨countInside, rfl⟩ := eq_of_writeByte count
  obtain ⟨blocksInside, rfl⟩ := eq_of_writeBlocks blocks
  cases last
  simp only [withByte, Memory.size_put, Memory.size_putBytes, size_withText] at *
  refine ⟨textInside, ?_, ⟨found, tokenized, rfl⟩, rfl⟩
  generalize found.take _ = tokens at *
  by_cases none : tokens = []
  · simpa [none] using countInside
  · have upTo := blocksInside none
    omega

/-- A line that has been cut to what the text buffer takes is stored like the whole line. -/
theorem storeLine_take (typeable : Typeable line) :
    storeLine d (line.take (m.textCapacity text)) text parse m = storeLine d line text parse m := by
  have codes : (lineCodes (line.take (m.textCapacity text))).take (m.textCapacity text) =
      (lineCodes line).take (m.textCapacity text) := by
    rw [lineCodes_take typeable, List.take_take, Nat.min_self]
  simp only [storeLine, get_bind, codes]

/-- What a line of the given codes, with the given words, leaves in the buffers of a machine:
its codes in the text buffer; in the parse buffer the number of its words and for each of them, as
far as there is room, the dictionary entry found with the codes in memory, the length and the place.
Nothing else is changed. -/
structure Stored (d : Dictionary) (m : Machine) (text parse : Nat) (codes : List UInt8)
    (words : List (Nat × List UInt8)) (m' : Machine) : Prop where
  codes_hold : m'.memory.Holds (text + 1) (codes ++ [0])
  count_eq : (m'.memory.byte (parse + 1)).toNat = min words.length (m.memory.byte parse).toNat
  block_eq : ∀ i start word, (words.take (m.memory.byte parse).toNat)[i]? = some (start, word) →
    d.lookup (withText m.memory text codes) (Zscii.text word) =
        .ok (m'.memory.word (parse + 2 + 4 * i)) ∧
      (m'.memory.byte (parse + 2 + 4 * i + 2)).toNat = word.length ∧
      (m'.memory.byte (parse + 2 + 4 * i + 3)).toNat = start + 1 ∧
      m'.memory.Holds (text + (start + 1)) word
  elsewhere : ∀ address, address ≤ text ∨ text + 1 + codes.length < address →
    address ≤ parse ∨ parse + 1 + 4 * min words.length (m.memory.byte parse).toNat < address →
    m'.memory.byte address = m.memory.byte address
  memory_only : m' = { m with memory := m'.memory }
  size_eq : m'.memory.size = m.memory.size

/-- The words of a line, found with its codes in memory, are in the parse buffer as they are. -/
theorem stored_of_written {codes : List UInt8} {words : List (Nat × List UInt8)}
    (splits : Dictionary.Splits d.separators 0 codes words) (short : codes.length < 0xFF)
    (nonzero : ∀ b ∈ codes, b ≠ 0)
    (apart : text + 1 + codes.length < parse ∨ parse + 1 + 4 * tokens.length < text)
    (textInside : text + 1 + codes.length < m.memory.size)
    (parseInside : parse + 1 + 4 * tokens.length < m.memory.size) {found : List Token}
    (tokenized : d.tokensOf (withText m.memory text codes) words = .ok found)
    (taken : tokens = found.take (m.memory.byte parse).toNat) :
    Stored d m text parse codes words
      { m with memory := withWords (withText m.memory text codes) parse tokens } := by
  have room := (m.memory.byte parse).toNat_lt
  have count : tokens.length = min words.length (m.memory.byte parse).toNat := by
    rw [taken, List.length_take, Dictionary.length_of_tokensOf tokenized, Nat.min_comm]
  obtain ⟨-, countByte, blocksHold⟩ := Memory.holds_cons.mp
    (holds_withWords (size_withText.symm ▸ parseInside))
  -- The text buffer keeps its codes because the parse buffer lies apart from it.
  have textHolds : (withWords (withText m.memory text codes) parse tokens).Holds (text + 1)
      (codes ++ [0]) := by
    refine (holds_withText textInside).congr (by simp) fun a above below => byte_withWords ?_
    simp only [List.length_append, List.length_singleton] at below
    omega
  refine ⟨textHolds, ?_, ?_, ?_, rfl, by simp⟩
  · rw [countByte, ← count, UInt8.toNat_ofNat']
    omega
  · intro i start word at_eq
    by_cases bound : i < (m.memory.byte parse).toNat
    · rw [List.getElem?_take_of_lt bound] at at_eq
      obtain ⟨token, token_eq, text_eq, position_eq, looked⟩ :=
        Dictionary.getElem?_of_tokensOf tokenized at_eq
      rw [← List.getElem?_take_of_lt bound, ← taken] at token_eq
      obtain ⟨before, after, codes_eq, start_eq⟩ := splits.stands (List.mem_of_getElem? at_eq)
      have ends : start + word.length ≤ codes.length := by
        simp only [codes_eq, List.length_append]
        omega
      have letters : token.text.length = word.length := by
        rw [text_eq]
        exact Zscii.length_text fun b member => nonzero b (by simp [codes_eq, member])
      obtain ⟨entry, length, position⟩ := fields_of_holds (by omega) (by omega)
        (blocksHold.flatMap length_block token_eq)
      refine ⟨by rw [looked, ← entry], length.trans letters, position.trans position_eq, ?_⟩
      rw [show codes ++ [0] = before ++ word ++ (after ++ [0]) by simp [codes_eq]] at textHolds
      rw [show text + (start + 1) = text + 1 + before.length by omega]
      exact textHolds.middle
    · rw [List.getElem?_take_eq_none (Nat.not_lt.mp bound)] at at_eq
      cases at_eq
  · intro a offText offParse
    rw [← count] at offParse
    exact (byte_withWords offParse).trans (byte_withText offText)

/-- A line that has been stored in buffers that lie apart. -/
theorem stored_of_storeLine (given : parse ≠ 0)
    (apart : text + max (m.memory.byte text).toNat 1 < parse ∨
      parse + 1 + 4 * (m.memory.byte parse).toNat < text)
    (h : storeLine d line text parse m = .ok tokens m') :
    let codes := ((Text.lowercase line).filterMap typedCode?).take ((m.memory.byte text).toNat - 1)
    ∃ words, Dictionary.Splits d.separators 0 codes words ∧
      Stored d m text parse codes words m' := by
  intro codes
  have cut : (lineCodes line).take (m.textCapacity text) = codes := by
    rw [lineCodes_eq, textCapacity]
  have nonzero : ∀ b ∈ codes, b ≠ 0 := fun b member =>
    lineCodes_ne_zero (List.mem_of_mem_take (cut ▸ member))
  have short : codes.length ≤ (m.memory.byte text).toNat - 1 := List.length_take_le _ _
  have byteSize := (m.memory.byte text).toNat_lt
  obtain ⟨textInside, parseInside, ⟨found, tokenized, taken⟩, rfl⟩ := eq_of_storeLine given cut h
  rw [Dictionary.tokenize_eq] at tokenized
  rw [byte_withText (by omega)] at taken
  have few : tokens.length ≤ (m.memory.byte parse).toNat := by
    rw [taken]
    exact List.length_take_le _ _
  exact ⟨_, Dictionary.splits_of_wordsFrom, stored_of_written Dictionary.splits_of_wordsFrom
    (by omega) nonzero (by omega) textInside parseInside tokenized taken⟩

/-- A machine with a text buffer for eleven letters at 0x40, a parse buffer for two words at 0x50
and the key of `take` at 0x60. -/
def listening : Machine :=
  let header := Memory.putBytes (Array.replicate 100 0) 0x0E [0, 0x60]
  let buffers := (header.put 0x40 12).put 0x50 2
  let image := buffers.putBytes 0x60 (ZString.dictionaryKey "take".toList)
  start { image, header := Header.ofMemory image }

def takeOnly : Dictionary :=
  { separators := [44], entryLength := 4, entryCount := 1, entries := 0x60 }

/-- The comma is the second word; the third one finds no room. -/
theorem listening_stored :
    ∃ tokens m', storeLine takeOnly "Take, sword".toList 0x40 0x50 listening = .ok tokens m' ∧
      ∃ words,
        let codes := ((Text.lowercase "Take, sword".toList).filterMap typedCode?).take
          ((listening.memory.byte 0x40).toNat - 1)
        Dictionary.Splits takeOnly.separators 0 codes words ∧
          Stored takeOnly listening 0x40 0x50 codes words m' := by
  have accepted : (storeLine takeOnly "Take, sword".toList 0x40 0x50 listening matches .ok ..) := by
    decide +kernel
  cases run : storeLine takeOnly "Take, sword".toList 0x40 0x50 listening with
  | ok tokens m' =>
    exact ⟨tokens, m', rfl, stored_of_storeLine (by decide) (by decide +kernel) run⟩
  | error e m' =>
    rw [run] at accepted
    cases accepted

end Machine

end ZMachine
