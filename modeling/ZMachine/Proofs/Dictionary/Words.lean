import ZMachine.Dictionary.Token
import ZMachine.Proofs.Operation

/-!
# The words of a line

The machine finds the stretches of a line that are its words and cuts each out of the line, in which
it has to lie. `wordsFrom` lists the words with no regard to bounds, and gives the same tokens
(`tokenize_eq`).

`Splits separators position line words` is the grammar of a line: spaces, separators, and runs of
letters that end where no letter follows. It mentions no unfinished word, and the words that are
found are words of the line by it (`splits_of_wordsFrom`).
-/

namespace ZMachine.Dictionary

/-- The word that ends before `position`, if it has letters; `pending` holds them, last first. -/
def pendingWord (position : Nat) (pending : List UInt8) : List (Nat × List UInt8) :=
  if pending = [] then [] else [(position - pending.length, pending.reverse)]

/-- The words of a line with the places where they begin; the line goes on at `position`, and
`pending` holds the letters of the unfinished word before it, last first. -/
def wordsFrom (separators : List UInt8) (position : Nat) (pending : List UInt8) :
    List UInt8 → List (Nat × List UInt8)
  | [] => pendingWord position pending
  | b :: rest =>
    if b = space then pendingWord position pending ++ wordsFrom separators (position + 1) [] rest
    else if b ∈ separators then
      pendingWord position pending ++
        (position, [b]) :: wordsFrom separators (position + 1) [] rest
    else wordsFrom separators (position + 1) (b :: pending) rest

def tokenOf (d : Dictionary) (memory : Memory) (start : Nat) (codes : List UInt8) :
    Except MachineError Token := do
  let text := Zscii.text codes
  let entry ← d.lookup memory text
  pure { text, position := start + 1, entry }

def tokensOf (d : Dictionary) (memory : Memory) :
    List (Nat × List UInt8) → Except MachineError (List Token)
  | [] => pure []
  | (start, codes) :: rest => do
    let token ← d.tokenOf memory start codes
    let tokens ← d.tokensOf memory rest
    pure (token :: tokens)

/-! ### Stretches of the line -/

section Stretches

variable {d : Dictionary} {memory : Memory} {line front rest pending codes : List UInt8}
  {words : List (Nat × List UInt8)} {ranges : List (Nat × Nat)} {i start stop : Nat}

theorem tokensIn_cons (cut : stretch line start stop = .ok codes)
    (behind : d.tokensIn memory line ranges = d.tokensOf memory words) :
    d.tokensIn memory line ((start, stop) :: ranges) =
      d.tokensOf memory ((start, codes) :: words) := by
  have first : d.tokenIn memory line (start, stop) = d.tokenOf memory start codes := by
    rw [tokenIn, except_bind_of_ok cut, except_bind_of_ok (Zscii.characters_eq codes)]
    rfl
  rw [tokensIn, tokensOf, first, behind]

/-- Where the unfinished word before a place begins. -/
def firstOf (front pending : List UInt8) : Option Nat :=
  if pending = [] then none else some front.length

theorem tokensIn_pendingRange (line_eq : line = front ++ pending.reverse ++ rest)
    (place : i = front.length + pending.length)
    (behind : d.tokensIn memory line ranges = d.tokensOf memory words) :
    d.tokensIn memory line (pendingRange (firstOf front pending) i ++ ranges) =
      d.tokensOf memory (pendingWord i pending ++ words) := by
  by_cases empty : pending = []
  · rw [firstOf, if_pos empty, pendingWord, if_pos empty]
    exact behind
  · rw [firstOf, if_neg empty, pendingWord, if_neg empty, place, Nat.add_sub_cancel]
    refine tokensIn_cons ?_ behind
    rw [line_eq, ← pending.length_reverse, stretch_append]

/-- Each stretch lies in the line, so that cutting it out gives the letters that have been read. -/
theorem tokensIn_rangesFrom {separators : List UInt8}
    (line_eq : line = front ++ pending.reverse ++ rest)
    (place : i = front.length + pending.length) :
    d.tokensIn memory line (rangesFrom separators i (firstOf front pending) rest) =
      d.tokensOf memory (wordsFrom separators i pending rest) := by
  induction rest generalizing front pending i with
  | nil =>
    rw [rangesFrom, wordsFrom, ← List.append_nil (pendingRange _ _),
      ← List.append_nil (pendingWord _ _)]
    exact tokensIn_pendingRange line_eq place rfl
  | cons b rest ih =>
    -- A byte that is no letter leaves nothing unfinished before the next place.
    have ended : d.tokensIn memory line (rangesFrom separators (i + 1) none rest) =
        d.tokensOf memory (wordsFrom separators (i + 1) [] rest) := by
      have line_eq' : line = (front ++ pending.reverse ++ [b]) ++ ([] : List UInt8).reverse ++ rest :=
        by simp [line_eq]
      exact ih line_eq' (by simp [place, Nat.add_assoc])
    rw [rangesFrom, wordsFrom]
    split
    · exact tokensIn_pendingRange line_eq place ended
    · split
      · refine tokensIn_pendingRange line_eq place (tokensIn_cons ?_ ended)
        have here : i = (front ++ pending.reverse).length := by simp [place]
        rw [line_eq, here, List.append_cons]
        exact stretch_append _ [b] rest
      · have longer : firstOf front (b :: pending) =
            some ((firstOf front pending).getD i) := by
          by_cases empty : pending = []
          · simp [firstOf, empty, place]
          · simp [firstOf, empty]
        rw [← longer]
        refine ih ?_ ?_
        · simp [line_eq]
        · simp [place, Nat.add_assoc]

theorem tokenize_eq (d : Dictionary) (memory : Memory) (line : List UInt8) :
    d.tokenize memory line = d.tokensOf memory (wordsFrom d.separators 0 [] line) :=
  @tokensIn_rangesFrom d memory line [] line [] 0 d.separators rfl rfl

end Stretches

/-! ### The grammar of lines -/

/-- A byte that neither ends a word nor is a word itself. -/
def IsLetter (separators : List UInt8) (b : UInt8) : Prop :=
  b ≠ space ∧ b ∉ separators

/-- The words of a line that begins at a position, each with the position where it begins. -/
inductive Splits (separators : List UInt8) : Nat → List UInt8 → List (Nat × List UInt8) → Prop
  | done {position : Nat} : Splits separators position [] []
  | space {position : Nat} {rest : List UInt8} {words : List (Nat × List UInt8)}
      (behind : Splits separators (position + 1) rest words) :
      Splits separators position (space :: rest) words
  | separator {position : Nat} {b : UInt8} {rest : List UInt8} {words : List (Nat × List UInt8)}
      (ne : b ≠ space) (listed : b ∈ separators)
      (behind : Splits separators (position + 1) rest words) :
      Splits separators position (b :: rest) ((position, [b]) :: words)
  | letters {position : Nat} {codes rest : List UInt8} {words : List (Nat × List UInt8)}
      (ne : codes ≠ []) (all : ∀ b ∈ codes, IsLetter separators b)
      (ended : ∀ b ∈ rest.head?, ¬ IsLetter separators b)
      (behind : Splits separators (position + codes.length) rest words) :
      Splits separators position (codes ++ rest) ((position, codes) :: words)

variable {separators : List UInt8} {position : Nat} {line rest pending codes : List UInt8}
  {words : List (Nat × List UInt8)}

theorem not_isLetter_space : ¬ IsLetter separators space :=
  fun letter => letter.1 rfl

theorem not_isLetter_of_mem {b : UInt8} (listed : b ∈ separators) : ¬ IsLetter separators b :=
  fun letter => letter.2 listed

/-- An unfinished word is a word once something follows that is no letter. -/
theorem Splits.pendingWord (h : Splits separators position rest words)
    (ended : ∀ b ∈ rest.head?, ¬ IsLetter separators b)
    (all : ∀ b ∈ pending, IsLetter separators b) (le : pending.length ≤ position) :
    Splits separators (position - pending.length) (pending.reverse ++ rest)
      (pendingWord position pending ++ words) := by
  by_cases empty : pending = []
  · subst empty
    exact h
  · rw [Dictionary.pendingWord, if_neg empty]
    refine Splits.letters (by simpa using empty) (by simpa using all) ended ?_
    rw [List.length_reverse, Nat.sub_add_cancel le]
    exact h

/-- The letters of the unfinished word lie just before the position. -/
theorem splits_wordsFrom (position : Nat) (pending line : List UInt8)
    (all : ∀ b ∈ pending, IsLetter separators b) (le : pending.length ≤ position) :
    Splits separators (position - pending.length) (pending.reverse ++ line)
      (wordsFrom separators position pending line) := by
  induction line generalizing position pending with
  | nil => simpa [wordsFrom] using Splits.done.pendingWord (by simp) all le
  | cons b rest ih =>
    rw [wordsFrom]
    by_cases blank : b = space
    · subst blank
      rw [if_pos rfl]
      have behind := ih (position + 1) [] nofun (Nat.zero_le _)
      exact behind.space.pendingWord (by simp [not_isLetter_space]) all le
    · by_cases listed : b ∈ separators
      · rw [if_neg blank, if_pos listed]
        have behind := ih (position + 1) [] nofun (Nat.zero_le _)
        exact (behind.separator blank listed).pendingWord
          (by simp [not_isLetter_of_mem listed]) all le
      · rw [if_neg blank, if_neg listed]
        have longer : ∀ c ∈ b :: pending, IsLetter separators c := by
          simpa using ⟨⟨blank, listed⟩, all⟩
        simpa using ih (position + 1) (b :: pending) longer (Nat.succ_le_succ le)

theorem splits_of_wordsFrom :
    Splits separators position line (wordsFrom separators position [] line) :=
  splits_wordsFrom position [] line nofun (Nat.zero_le _)

/-- What a word can be, between what stands before and behind it in a line. -/
inductive IsWord (separators before codes after : List UInt8) : Prop
  /-- A separator is a word by itself, unless it is the space. -/
  | separator {b : UInt8} (ne : b ≠ space) (listed : b ∈ separators) (eq : codes = [b])
  /-- Letters are a word if no letter adjoins them. -/
  | letters (ne : codes ≠ []) (all : ∀ b ∈ codes, IsLetter separators b)
      (unpreceded : ∀ b ∈ before.getLast?, ¬ IsLetter separators b)
      (unfollowed : ∀ b ∈ after.head?, ¬ IsLetter separators b)

theorem IsWord.ne_nil {before after : List UInt8} (h : IsWord separators before codes after) :
    codes ≠ [] := by
  cases h with
  | separator _ _ eq => simp [eq]
  | letters ne => exact ne

/-- What stands before a word is the same for it with a byte in front that is no letter. -/
theorem IsWord.behind {b : UInt8} {before after : List UInt8} (noLetter : ¬ IsLetter separators b)
    (h : IsWord separators before codes after) : IsWord separators (b :: before) codes after := by
  cases h with
  | separator ne listed eq => exact .separator ne listed eq
  | letters ne all unpreceded unfollowed =>
    refine .letters ne all (fun c last => ?_) unfollowed
    cases before with
    | nil =>
      cases last
      exact noLetter
    | cons first rest => exact unpreceded c (by simpa using last)

/-- A word is the stretch of the line where it is said to begin. -/
theorem Splits.isWord {start : Nat} (h : Splits separators position line words)
    (member : (start, codes) ∈ words) :
    ∃ before after, line = before ++ codes ++ after ∧ position + before.length = start ∧
      IsWord separators before codes after := by
  induction h with
  | done => cases member
  | space _ ih =>
    obtain ⟨before, after, rfl, begins, word⟩ := ih member
    exact ⟨Dictionary.space :: before, after, rfl, by simp; omega,
      word.behind not_isLetter_space⟩
  | @separator _ b rest _ ne listed _ ih =>
    rcases List.mem_cons.mp member with first | later
    · cases first
      exact ⟨[], rest, rfl, rfl, .separator ne listed rfl⟩
    · obtain ⟨before, after, rfl, begins, word⟩ := ih later
      exact ⟨b :: before, after, rfl, by simp; omega, word.behind (not_isLetter_of_mem listed)⟩
  | @letters _ run rest _ ne all ended _ ih =>
    rcases List.mem_cons.mp member with first | later
    · cases first
      exact ⟨[], rest, by simp, rfl, .letters ne all nofun ended⟩
    · obtain ⟨before, after, rfl, begins, word⟩ := ih later
      refine ⟨run ++ before, after, by simp, by simp; omega, ?_⟩
      cases word with
      | separator ne listed eq => exact .separator ne listed eq
      | letters ne all unpreceded unfollowed =>
        refine .letters ne all (fun c last => ?_) unfollowed
        -- Letters that follow a run directly would belong to the run.
        cases before with
        | nil =>
          obtain ⟨b, codes, rfl⟩ := List.exists_cons_of_ne_nil ne
          exact absurd (all b (by simp)) (ended b rfl)
        | cons first others => exact unpreceded c (by simpa [List.getLast?_append] using last)

theorem Splits.stands {start : Nat} (h : Splits separators position line words)
    (member : (start, codes) ∈ words) :
    ∃ before after, line = before ++ codes ++ after ∧ position + before.length = start := by
  obtain ⟨before, after, line_eq, begins, -⟩ := h.isWord member
  exact ⟨before, after, line_eq, begins⟩

theorem Splits.position_le (h : Splits separators position line words) :
    ∀ word ∈ words, position ≤ word.1 := by
  intro word member
  obtain ⟨before, -, -, begins⟩ := h.stands (show (word.1, word.2) ∈ words from member)
  omega

/-- Words come in the order of the line and do not overlap. -/
theorem Splits.pairwise (h : Splits separators position line words) :
    words.Pairwise fun first later => first.1 + first.2.length ≤ later.1 := by
  induction h with
  | done => exact .nil
  | space _ ih => exact ih
  | separator _ _ behind ih => exact .cons behind.position_le ih
  | letters _ _ _ behind ih => exact .cons behind.position_le ih

/-- All that is no space belongs to a word. -/
theorem Splits.covers {i : Nat} {b : UInt8} {bytes : List UInt8}
    (h : Splits separators position bytes words) (stands : bytes[i]? = some b) :
    (∃ word ∈ words, word.1 ≤ position + i ∧ position + i < word.1 + word.2.length) ↔
      b ≠ Dictionary.space := by
  induction h generalizing i with
  | done => cases stands
  | space behind ih =>
    cases i with
    | zero =>
      cases stands
      refine iff_of_false ?_ (fun ne => ne rfl)
      rintro ⟨word, member, begun, -⟩
      have later := behind.position_le word member
      omega
    | succ i =>
      rw [← ih stands]
      simp only [Nat.add_assoc, Nat.add_comm 1]
  | separator ne listed behind ih =>
    cases i with
    | zero =>
      cases stands
      exact iff_of_true ⟨_, List.mem_cons_self .., by simp⟩ ne
    | succ i =>
      simp only [← ih stands, List.mem_cons, exists_eq_or_imp, List.length_singleton,
        Nat.add_assoc, Nat.add_comm 1]
      refine or_iff_right ?_
      omega
  | @letters position codes rest words ne all ended behind ih =>
    simp only [List.mem_cons, exists_eq_or_imp]
    by_cases within : i < codes.length
    · rw [List.getElem?_append_left within] at stands
      have letter := all b (List.mem_of_getElem? stands)
      exact iff_of_true (Or.inl ⟨Nat.le_add_right _ _, Nat.add_lt_add_left within _⟩) letter.1
    · rw [List.getElem?_append_right (Nat.not_lt.mp within)] at stands
      rw [← ih stands, Nat.add_assoc, Nat.add_sub_cancel' (Nat.not_lt.mp within)]
      refine or_iff_right ?_
      omega

end ZMachine.Dictionary
