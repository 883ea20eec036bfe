import ZMachine.Proofs.Memory
import ZMachine.ZString.Decoding
import ZMachine.ZString.Encoding

/-!
# The words of a string

`words` lists the words of a string in memory with no regard to bounds. They are what the machine
collects, all of whose accesses are checked (`collect_eq`).

`Runs memory address ws` says which words a string in memory has without reading one after the
other: they stand at its address, none but the last has its highest bit set, and either the last one
has, or there is no further whole word. `words_eq_iff` says that these are the words that are read.

Z-characters that have been packed are such words (`runs_packWords`), and unpacking them gives the
Z-characters back, with some that fill up the last word.
-/

namespace ZMachine.ZString

variable {memory : Memory} {address : Nat}

def words (memory : Memory) (address : Nat) : List UInt16 :=
  if address + 1 < memory.size then
    memory.word address ::
      if endsString (memory.word address) then [] else words memory (address + 2)
  else []
termination_by memory.size - address

/-- No word that is collected lies beyond the end of memory. -/
theorem collectFrom_eq (memory : Memory) (address : Nat) (collected : List UInt16) :
    collectFrom memory address collected =
      .ok (collected.reverse ++ words memory address,
        address + 2 * (words memory address).length) := by
  rw [collectFrom, words]
  split
  · next inside =>
    rw [except_bind_of_ok (Memory.wordIn_of_lt inside)]
    split
    · simp [pure, Except.pure]
    · rw [collectFrom_eq memory (address + 2)]
      simp only [List.reverse_cons, List.append_assoc, List.singleton_append, List.length_cons]
      rw [show address + 2 + 2 * (words memory (address + 2)).length =
        address + 2 * ((words memory (address + 2)).length + 1) by omega]
  · simp [pure, Except.pure]
termination_by memory.size - address

theorem collect_eq (memory : Memory) (address : Nat) :
    collect memory address =
      .ok ((words memory address).flatMap unpackWord, 2 * (words memory address).length) := by
  rw [collect, except_bind_of_ok (collectFrom_eq memory address [])]
  dsimp only
  rw [except_bind_of_ok (subtract_of_le (Nat.le_add_right _ _)), Nat.add_sub_cancel_left]
  rfl

/-- The words are those of the string at the address. -/
structure Runs (memory : Memory) (address : Nat) (ws : List UInt16) : Prop where
  stored : memory.Holds address (ws.flatMap Word.bytes)
  unmarked : ∀ w ∈ ws.dropLast, endsString w = false
  ends : (∃ w, ws.getLast? = some w ∧ endsString w) ∨ memory.size ≤ address + 2 * ws.length + 1

theorem runs_nil (le : address ≤ memory.size) (short : memory.size ≤ address + 1) :
    Runs memory address [] where
  stored := Memory.holds_nil.mpr le
  unmarked := by simp
  ends := .inr short

theorem Runs.size_le_of_nil (h : Runs memory address []) : memory.size ≤ address + 1 := by
  rcases h.ends with ⟨w, last, -⟩ | short
  · cases last
  · exact short

/-- A string that has a first word ends with it or goes on as the string behind it. -/
theorem runs_cons {w : UInt16} {rest : List UInt16} :
    Runs memory address (w :: rest) ↔
      address + 1 < memory.size ∧ memory.word address = w ∧
        if endsString w then rest = [] else Runs memory (address + 2) rest := by
  constructor
  · intro h
    obtain ⟨inside, word, behind⟩ := Memory.holds_word.mp h.stored
    refine ⟨inside, word, ?_⟩
    cases rest with
    | nil =>
      split
      · rfl
      · next unmarked =>
        rcases h.ends with ⟨v, last, marked⟩ | short
        · cases last
          exact absurd marked unmarked
        · exact runs_nil behind.le_size short
    | cons v rest =>
      have unmarked : endsString w = false := h.unmarked w List.mem_cons_self
      rw [if_neg (by simp [unmarked])]
      refine ⟨behind, fun u member => h.unmarked u (List.mem_cons_of_mem _ member), ?_⟩
      rcases h.ends with ⟨u, last, marked⟩ | short
      · exact .inl ⟨u, last, marked⟩
      · refine .inr (Nat.le_trans short ?_)
        simp only [List.length_cons]
        omega
  · rintro ⟨inside, word, behind⟩
    split at behind
    · next marked =>
      subst behind
      exact ⟨Memory.holds_word.mpr ⟨inside, word, Memory.holds_nil.mpr inside⟩, by simp,
        .inl ⟨w, rfl, marked⟩⟩
    · next unmarked =>
      refine ⟨Memory.holds_word.mpr ⟨inside, word, behind.stored⟩, ?_, ?_⟩
      · cases rest with
        | nil => simp
        | cons v rest =>
          intro u member
          rcases List.mem_cons.mp member with rfl | member
          · simpa using unmarked
          · exact behind.unmarked u member
      · rcases behind.ends with ⟨u, last, marked⟩ | short
        · refine .inl ⟨u, ?_, marked⟩
          rw [List.getLast?_cons, last, Option.getD_some]
        · refine .inr (Nat.le_trans short ?_)
          simp only [List.length_cons]
          omega

theorem words_eq_iff {ws : List UInt16} (le : address ≤ memory.size) :
    words memory address = ws ↔ Runs memory address ws := by
  -- Memory is followed along the given words, so that a list that ends too soon or goes on too far
  -- shows at the word where it does.
  induction ws generalizing address with
  | nil =>
    rw [words]
    split
    · next inside =>
      refine ⟨nofun, fun h => ?_⟩
      have short := h.size_le_of_nil
      omega
    · next short => exact ⟨fun _ => runs_nil le (Nat.le_of_not_lt short), fun _ => rfl⟩
  | cons w rest ih =>
    rw [words, runs_cons]
    split
    · next inside =>
      have behind : (if endsString (memory.word address) then [] else words memory (address + 2)) =
          rest ↔ if endsString (memory.word address) then rest = [] else
            Runs memory (address + 2) rest := by
        split
        · exact eq_comm
        · exact ih inside
      rw [List.cons.injEq, behind]
      constructor
      · rintro ⟨rfl, h⟩
        exact ⟨inside, rfl, h⟩
      · rintro ⟨-, rfl, h⟩
        exact ⟨rfl, h⟩
    · next short => exact ⟨nofun, fun h => absurd h.1 short⟩

/-! ### Packed Z-characters -/

theorem toNat_packWord (last : Bool) (a b c : ZChar) :
    (packWord last a b c).toNat =
      (if last then 0x8000 else 0) + (a.val * 32 + b.val) * 32 + c.val := by
  have ha := a.isLt
  have hb := b.isLt
  have hc := c.isLt
  rw [packWord, UInt16.toNat_ofNat']
  split <;> omega

theorem endsString_packWord (last : Bool) (a b c : ZChar) :
    endsString (packWord last a b c) = last := by
  have ha := a.isLt
  have hb := b.isLt
  have hc := c.isLt
  rw [endsString, toNat_packWord]
  cases last
  · simp
    omega
  · simp
    omega

theorem unpackWord_packWord (last : Bool) (a b c : ZChar) :
    unpackWord (packWord last a b c) = [a, b, c] := by
  have ha := a.isLt
  have hb := b.isLt
  have hc := c.isLt
  rw [unpackWord, toNat_packWord]
  simp only [List.cons.injEq, Fin.ext_iff, ZChar.ofNat, and_true]
  split <;> omega

/-- Unpacking gives back what has been packed, with shifts that fill up the last word. -/
theorem unpack_packWords (zchars : List ZChar) :
    ∃ n, (packWords zchars).flatMap unpackWord =
      zchars ++ List.replicate n ZChar.shiftPunctuation := by
  induction zchars using packWords.induct with
  | case1 => exact ⟨3, by simp [packWords, unpackWord_packWord, List.replicate]⟩
  | case2 a => exact ⟨2, by simp [packWords, unpackWord_packWord, List.replicate]⟩
  | case3 a b => exact ⟨1, by simp [packWords, unpackWord_packWord, List.replicate]⟩
  | case4 a b c => exact ⟨0, by simp [packWords, unpackWord_packWord]⟩
  | case5 a b c d rest ih =>
    obtain ⟨n, ih⟩ := ih
    refine ⟨n, ?_⟩
    rw [packWords, List.flatMap_cons, ih, unpackWord_packWord]
    rfl

theorem runs_last {a b c : ZChar}
    (stored : memory.Holds address (Word.bytes (packWord true a b c))) :
    Runs memory address [packWord true a b c] where
  stored := by simpa using stored
  unmarked := by simp
  ends := .inl ⟨_, rfl, endsString_packWord true a b c⟩

/-- Where packed Z-characters stand, they are the words of a string, whatever stands behind. -/
theorem runs_packWords {zchars : List ZChar} (stored : memory.Holds address (pack zchars)) :
    Runs memory address (packWords zchars) := by
  induction zchars using packWords.induct generalizing address with
  | case1 => exact runs_last stored
  | case2 a => exact runs_last stored
  | case3 a b => exact runs_last stored
  | case4 a b c => exact runs_last stored
  | case5 a b c d rest ih =>
    obtain ⟨inside, word, behind⟩ := Memory.holds_word.mp stored
    rw [packWords, runs_cons, endsString_packWord]
    exact ⟨inside, word, ih behind⟩

end ZMachine.ZString
