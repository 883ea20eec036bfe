import Mathlib.Tactic.Ring
import ZMachine.Proofs.Machine.Input
import ZMachine.Proofs.Memory

/-!
# Words in the dictionary

Looking up a word compares keys as numbers, which is their order byte by byte (`rank_lt_rank_iff`).
Halving finds an entry with the key of the word if there is one, as long as the keys are in order:
what has been left behind below comes before the key, and what has been left behind above comes
after it (`rank_ne_of_search`). What is found has the key of the word in any case
(`exists_of_search`).
-/

namespace ZMachine

namespace Dictionary

/-! ### The order of keys -/

theorem foldl_eq_rank (n : Nat) (key : List UInt8) :
    key.foldl (fun n b => n * 256 + b.toNat) n = n * 256 ^ key.length + rank key := by
  induction key generalizing n with
  | nil => simp [rank]
  | cons b rest ih =>
    rw [rank, List.foldl_cons, List.foldl_cons, ih, ih (0 * 256 + b.toNat), List.length_cons]
    ring

theorem rank_cons (b : UInt8) (rest : List UInt8) :
    rank (b :: rest) = b.toNat * 256 ^ rest.length + rank rest := by
  rw [rank, List.foldl_cons, foldl_eq_rank, Nat.zero_mul, Nat.zero_add]

theorem rank_lt (key : List UInt8) : rank key < 256 ^ key.length := by
  induction key with
  | nil => simp [rank]
  | cons b rest ih =>
    have digit : b.toNat + 1 ≤ 256 := b.toNat_lt
    calc rank (b :: rest)
        = b.toNat * 256 ^ rest.length + rank rest := rank_cons b rest
      _ < b.toNat * 256 ^ rest.length + 256 ^ rest.length := Nat.add_lt_add_left ih _
      _ = (b.toNat + 1) * 256 ^ rest.length := (Nat.succ_mul _ _).symm
      _ ≤ 256 * 256 ^ rest.length := Nat.mul_le_mul_right _ digit
      _ = 256 ^ (b :: rest).length := (Nat.pow_succ').symm

/-- The first bytes decide, if they differ. -/
theorem rank_cons_lt {a b : UInt8} {s t : List UInt8} (same : s.length = t.length) (less : a < b) :
    rank (a :: s) < rank (b :: t) := by
  have step : (a.toNat + 1) * 256 ^ t.length ≤ b.toNat * 256 ^ t.length :=
    Nat.mul_le_mul_right _ less
  have below := rank_lt s
  rw [rank_cons, rank_cons]
  rw [same] at below ⊢
  rw [Nat.succ_mul] at step
  omega

/-- Keys of one length are in the order of their bytes. -/
theorem rank_lt_rank_iff {s t : List UInt8} (same : s.length = t.length) :
    rank s < rank t ↔ s < t := by
  induction s generalizing t with
  | nil =>
    obtain rfl := List.length_eq_zero_iff.mp same.symm
    simp
  | cons a s ih =>
    obtain ⟨b, t, rfl⟩ := List.exists_cons_of_length_eq_add_one same.symm
    have tails : s.length = t.length := Nat.succ.inj same
    rw [List.cons_lt_cons_iff]
    rcases Std.lt_trichotomy a b with less | rfl | greater
    · exact iff_of_true (rank_cons_lt tails less) (Or.inl less)
    · simp [rank_cons, tails, ih tails]
    · have notLess : ¬ (a < b ∨ a = b ∧ s < t) := by
        rintro (less | ⟨rfl, -⟩)
        · exact Std.lt_irrefl (Std.lt_trans less greater)
        · exact Std.lt_irrefl greater
      exact iff_of_false (Nat.lt_asymm (rank_cons_lt tails.symm greater)) notLess

theorem rank_inj {s t : List UInt8} (same : s.length = t.length) : rank s = rank t ↔ s = t := by
  constructor
  · intro eq
    have notLess : ¬ s < t := fun less =>
      Nat.ne_of_lt ((rank_lt_rank_iff same).mpr less) eq
    have notGreater : ¬ t < s := fun greater =>
      Nat.ne_of_gt ((rank_lt_rank_iff same.symm).mpr greater) eq
    exact List.le_antisymm notGreater notLess
  · exact congrArg rank

theorem rank_le_rank {s t : List UInt8} (same : s.length = t.length) (le : s ≤ t) :
    rank s ≤ rank t :=
  Nat.le_of_not_lt fun less => le ((rank_lt_rank_iff same.symm).mp less)

/-! ### Halving -/

variable {d : Dictionary} {memory : Memory} {key low high address : Nat} {word : List Char}

/-- The key of the entry with an index: its first four bytes. -/
def keyAt (d : Dictionary) (memory : Memory) (index : Nat) : List UInt8 :=
  memory.bytes (d.entryAddress index) keySize

/-- The keys are in the order of their bytes; entries may share a key. -/
def Sorted (d : Dictionary) (memory : Memory) : Prop :=
  ∀ j < d.entryCount, ∀ i < j, d.keyAt memory i ≤ d.keyAt memory j

/-- No two entries share a key. -/
def Distinct (d : Dictionary) (memory : Memory) : Prop :=
  ∀ j < d.entryCount, ∀ i < j, d.keyAt memory i ≠ d.keyAt memory j

instance (d : Dictionary) (memory : Memory) : Decidable (d.Sorted memory) :=
  inferInstanceAs (Decidable (∀ j < d.entryCount, ∀ i < j, _))

instance (d : Dictionary) (memory : Memory) : Decidable (d.Distinct memory) :=
  inferInstanceAs (Decidable (∀ j < d.entryCount, ∀ i < j, _))

/-- The entry with an index is in the dictionary and has the key of the word. -/
structure Files (d : Dictionary) (memory : Memory) (word : List Char) (index : Nat) : Prop where
  lt : index < d.entryCount
  key_eq : d.keyAt memory index = ZString.dictionaryKey word

theorem length_keyAt (index : Nat) : (d.keyAt memory index).length = keySize := by
  rw [keyAt, Memory.bytes, List.length_map, List.length_range]

theorem rankAt_entryAddress (fits : d.Fits memory.size) {index : Nat}
    (bound : index < d.entryCount) :
    rankAt memory (d.entryAddress index) = .ok (rank (d.keyAt memory index)) := by
  rw [rankAt_eq, if_neg (Nat.not_lt.mpr (fits.entryAddress_le bound)), keyAt]

theorem Sorted.rank_le (sorted : d.Sorted memory) {i j : Nat} (le : i ≤ j)
    (bound : j < d.entryCount) : rank (d.keyAt memory i) ≤ rank (d.keyAt memory j) := by
  rcases Nat.eq_or_lt_of_le le with rfl | less
  · exact Nat.le_refl _
  · exact rank_le_rank (by rw [length_keyAt, length_keyAt]) (sorted j bound i less)

/-- What is found has the key, in whatever order the entries are. -/
theorem exists_of_search (fits : d.Fits memory.size) (bound : high ≤ d.entryCount)
    (h : d.search memory key low high = .ok (some address)) :
    ∃ i, i < d.entryCount ∧ address = d.entryAddress i ∧ rank (d.keyAt memory i) = key := by
  fun_induction search d memory key low high with
  | case1 => cases h
  | case2 low high _ middle found _ _ ih => exact ih (by omega) h
  | case3 low high _ middle found _ _ _ ih => exact ih bound h
  | case4 low high some middle found ranked notLess notGreater =>
    have inside : middle < d.entryCount := by omega
    cases (rankAt_entryAddress fits inside).symm.trans ranked
    cases h
    exact ⟨middle, inside, rfl, Nat.le_antisymm (Nat.le_of_not_lt notLess)
      (Nat.le_of_not_lt notGreater)⟩
  | case5 => cases h

/-- Nothing is missed: the keys below `low` come before the one sought, and those from `high` on
come after it. -/
theorem rank_ne_of_search (fits : d.Fits memory.size) (sorted : d.Sorted memory)
    (bound : high ≤ d.entryCount) (below : ∀ i < low, rank (d.keyAt memory i) < key)
    (above : ∀ i, high ≤ i → i < d.entryCount → key < rank (d.keyAt memory i))
    (h : d.search memory key low high = .ok none) {i : Nat} (inside : i < d.entryCount) :
    rank (d.keyAt memory i) ≠ key := by
  fun_induction search d memory key low high with
  | case1 => cases h
  | case2 low high some middle found ranked less ih =>
    have middleInside : middle < d.entryCount := by omega
    cases (rankAt_entryAddress fits middleInside).symm.trans ranked
    refine ih (by omega) below (fun j reached jInside => ?_) h
    exact Nat.lt_of_lt_of_le less (sorted.rank_le reached jInside)
  | case3 low high some middle found ranked _ greater ih =>
    have middleInside : middle < d.entryCount := by omega
    cases (rankAt_entryAddress fits middleInside).symm.trans ranked
    refine ih bound (fun j passed => ?_) above h
    exact Nat.lt_of_le_of_lt (sorted.rank_le (Nat.le_of_lt_succ passed) middleInside) greater
  | case4 => cases h
  | case5 low high none =>
    rcases Nat.lt_or_ge i low with before | behind
    · exact Nat.ne_of_lt (below i before)
    · exact Nat.ne_of_gt (above i (by omega) inside)

theorem exists_search (fits : d.Fits memory.size) (bound : high ≤ d.entryCount) :
    ∃ found, d.search memory key low high = .ok found := by
  fun_induction search d memory key low high with
  | case1 low high some middle e failed =>
    have inside : middle < d.entryCount := by omega
    cases (rankAt_entryAddress fits inside).symm.trans failed
  | case2 low high _ middle found _ _ ih => exact ih (by omega)
  | case3 low high _ middle found _ _ _ ih => exact ih bound
  | case4 => exact ⟨_, rfl⟩
  | case5 => exact ⟨_, rfl⟩

/-! ### Looking up -/

/-- Where a word is found: at the address of an entry with its key, or at 0 if none is found. -/
structure Located (d : Dictionary) (memory : Memory) (word : List Char) (found : UInt16) :
    Prop where
  /-- Whatever order the entries are in, one that is found has the key of the word. -/
  files : found ≠ 0 → ∃ i, d.Files memory word i ∧ found.toNat = d.entryAddress i
  /-- In a dictionary in order, a word is missed only if it is not there. -/
  eq_zero_iff : d.Sorted memory → (found = 0 ↔ ∀ i, ¬ d.Files memory word i)
  /-- Where no two entries share a key, there is one entry to be found. -/
  unique : d.Sorted memory → d.Distinct memory →
    ∀ i, d.Files memory word i → found.toNat = d.entryAddress i

theorem Distinct.eq_of_files (distinct : d.Distinct memory) {i j : Nat}
    (hi : d.Files memory word i) (hj : d.Files memory word j) : i = j := by
  have same : d.keyAt memory i = d.keyAt memory j := hi.key_eq.trans hj.key_eq.symm
  rcases Nat.lt_trichotomy i j with less | eq | greater
  · exact absurd same (distinct j hj.lt i less)
  · exact eq
  · exact absurd same.symm (distinct i hi.lt j greater)

/-- Keys are compared by their numbers. -/
theorem files_iff {i : Nat} :
    d.Files memory word i ↔
      i < d.entryCount ∧ rank (d.keyAt memory i) = rank (ZString.dictionaryKey word) := by
  have same : (d.keyAt memory i).length = (ZString.dictionaryKey word).length := by
    rw [length_keyAt, ZString.length_dictionaryKey]
  rw [rank_inj same]
  exact ⟨fun h => ⟨h.lt, h.key_eq⟩, fun h => ⟨h.1, h.2⟩⟩

/-- The addresses of entries below 0x10000 are words other than 0. -/
theorem toNat_ofNat_entryAddress (near : d.Fits 0x10000) (positive : 0 < d.entries) {i : Nat}
    (inside : i < d.entryCount) :
    (UInt16.ofNat (d.entryAddress i)).toNat = d.entryAddress i ∧
      UInt16.ofNat (d.entryAddress i) ≠ 0 := by
  have below := near.entryAddress_le inside
  have above : d.entries ≤ d.entryAddress i := Nat.le_add_right _ _
  have exact_eq : (UInt16.ofNat (d.entryAddress i)).toNat = d.entryAddress i := by
    rw [UInt16.toNat_ofNat', Nat.mod_eq_of_lt]
    simp only [keySize] at below
    omega
  refine ⟨exact_eq, fun zero => ?_⟩
  rw [zero, UInt16.toNat_zero] at exact_eq
  omega

theorem positive_of_read (h : Dictionary.read memory address = .ok d) : 0 < d.entries := by
  simp only [read_eq] at h
  repeat' split at h
  all_goals cases h
  exact Nat.succ_pos _

/-- All entries lie in memory, and looking up a word comes to a result. That is an entry with the key
of the word if there is one in a dictionary in order, and never any other entry. -/
theorem located_of_read (read : Dictionary.read memory address = .ok d)
    (near : d.entries + d.entryLength * d.entryCount ≤ 0x10000) (word : List Char) :
    (∀ i < d.entryCount, d.entryAddress i + d.entryLength ≤ memory.size) ∧
      ∃ found, d.lookup memory word = .ok found ∧ Located d memory word found := by
  have fits := fits_of_read read
  refine ⟨fun i inside => fits.entry_le inside, ?_⟩
  have address_eq {i : Nat} (inside : i < d.entryCount) :=
    toNat_ofNat_entryAddress ⟨fits.key_le, near⟩ (positive_of_read read) inside
  obtain ⟨found, run⟩ : ∃ found,
      d.search memory (rank (ZString.dictionaryKey word)) 0 d.entryCount = .ok found :=
    exists_search fits (Nat.le_refl _)
  cases found with
  | none =>
    have missed : d.Sorted memory → ∀ i, ¬ d.Files memory word i := by
      intro sorted i files
      obtain ⟨inside, same⟩ := files_iff.mp files
      have above : ∀ j, d.entryCount ≤ j → j < d.entryCount →
          rank (ZString.dictionaryKey word) < rank (d.keyAt memory j) :=
        fun j behind jInside => absurd jInside (Nat.not_lt.mpr behind)
      exact rank_ne_of_search fits sorted (Nat.le_refl _) (by simp) above run inside same
    refine ⟨0, by rw [lookup_eq, run], ?_, ?_, ?_⟩
    · exact fun ne => absurd rfl ne
    · exact fun sorted => iff_of_true rfl (missed sorted)
    · exact fun sorted _ i files => absurd files (missed sorted i)
  | some place =>
    obtain ⟨i, inside, rfl, same⟩ := exists_of_search fits (Nat.le_refl _) run
    have files : d.Files memory word i := files_iff.mpr ⟨inside, same⟩
    refine ⟨_, by rw [lookup_eq, run], ?_, ?_, ?_⟩
    · exact fun _ => ⟨i, files, (address_eq inside).1⟩
    · exact fun _ => iff_of_false (address_eq inside).2 fun none => none i files
    · intro _ distinct j jFiles
      rw [distinct.eq_of_files jFiles files]
      exact (address_eq inside).1

/-- A dictionary at address 0 with a comma as a separator and three words in order. -/
def threeWords : Memory :=
  let keys := ["lamp", "north", "take"].flatMap fun word => ZString.dictionaryKey word.toList
  ([1, 44, 4, 0, 3] ++ keys).toArray

def ofThreeWords : Dictionary :=
  { separators := [44], entryLength := 4, entryCount := 3, entries := 5 }

/-- The second of the three words is found at its entry, and a word that is not there at 0. -/
theorem located_threeWords :
    Dictionary.read threeWords 0 = .ok ofThreeWords ∧ ofThreeWords.Sorted threeWords ∧
      ofThreeWords.Distinct threeWords ∧
        (∃ found, ofThreeWords.lookup threeWords "North".toList = .ok found ∧
          Located ofThreeWords threeWords "North".toList found) ∧
        ofThreeWords.lookup threeWords "North".toList = .ok 9 ∧
        ofThreeWords.lookup threeWords "south".toList = .ok 0 := by
  have read : Dictionary.read threeWords 0 = .ok ofThreeWords := by decide +kernel
  exact ⟨read, by decide +kernel, by decide +kernel,
    (located_of_read read (by decide) "North".toList).2, by decide +kernel, by decide +kernel⟩

end Dictionary

end ZMachine
