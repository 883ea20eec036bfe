import ZMachine.Proofs.Snapshot.Difference

/-!
# What a difference is made of

Compressed memory is a sequence of pieces: a literal, which changes one byte of the pristine memory,
or a run of bytes that stay as they are. A list of bytes spells at most one such sequence
(`spell_injective`), and it can be expanded just if it spells one and the pieces do not reach beyond
the pristine memory (`lossless_and_exact`).
-/

namespace ZMachine.Difference

/-- A literal is the difference of one byte from the pristine one; a run stands for bytes that have
not changed, one more than its number. -/
inductive Piece where
  | literal (difference : UInt8) (ne : difference ≠ 0)
  | run (more : UInt8)
  deriving DecidableEq, Repr

namespace Piece

def bytes : Piece → List UInt8
  | literal difference _ => [difference]
  | run more => [0, more]

/-- How many bytes of memory the piece stands for. -/
def extent : Piece → Nat
  | literal _ _ => 1
  | run more => more.toNat + 1

/-- What is made of the bytes that the piece stands for. -/
def change (pristine : List UInt8) : Piece → List UInt8
  | literal difference _ => pristine.map (· ^^^ difference)
  | run _ => pristine

end Piece

def spell (pieces : List Piece) : List UInt8 :=
  pieces.flatMap Piece.bytes

def extent : List Piece → Nat
  | [] => 0
  | piece :: rest => piece.extent + extent rest

/-- The pristine memory with the changes of some pieces; what lies behind them stays. -/
def patch : List Piece → List UInt8 → List UInt8
  | [], pristine => pristine
  | piece :: rest, pristine =>
    piece.change (pristine.take piece.extent) ++ patch rest (pristine.drop piece.extent)

/-- The memory is the pristine one but for the literals, each of which changes the byte at its
place. -/
structure Patched (pieces : List Piece) (pristine memory : List UInt8) : Prop where
  run_eq : ∀ front more back, pieces = front ++ .run more :: back →
    ∀ i, extent front ≤ i → i ≤ extent front + more.toNat → memory[i]? = pristine[i]?
  literal_eq : ∀ front difference ne back, pieces = front ++ .literal difference ne :: back →
    memory[extent front]? = pristine[extent front]?.map (· ^^^ difference)
  tail_eq : ∀ i, extent pieces ≤ i → memory[i]? = pristine[i]?

variable {pieces front back rest : List Piece} {piece : Piece}
  {done pristine compressed memory : List UInt8} {i : Nat}

@[simp] theorem spell_cons : spell (piece :: rest) = piece.bytes ++ spell rest :=
  List.flatMap_cons

@[simp] theorem extent_nil : extent [] = 0 := rfl

@[simp] theorem extent_cons : extent (piece :: rest) = piece.extent + extent rest := rfl

theorem Piece.length_change (piece : Piece) (pristine : List UInt8) :
    (piece.change pristine).length = pristine.length := by
  cases piece with
  | literal => exact List.length_map _
  | run => rfl

/-- A list of bytes is cut into pieces in one way only: a literal is not zero. -/
theorem spell_injective : Function.Injective spell := by
  intro pieces
  induction pieces with
  | nil =>
    intro others same
    cases others with
    | nil => rfl
    | cons other => cases other <;> cases same
  | cons piece rest ih =>
    intro others same
    cases others with
    | nil => cases piece <;> cases same
    | cons other others =>
      rw [spell_cons, spell_cons] at same
      cases piece with
      | literal difference ne =>
        cases other with
        | literal difference' ne' =>
          obtain ⟨rfl, behind⟩ := List.cons.inj same
          rw [ih behind]
        | run more => exact absurd (List.cons.inj same).1 ne
      | run more =>
        cases other with
        | literal difference ne => exact absurd (List.cons.inj same).1.symm ne
        | run more' =>
          obtain ⟨rfl, behind⟩ := List.cons.inj (List.cons.inj same).2
          rw [ih behind]

/-! ### Expanding -/

/-- Pieces that do not reach beyond the pristine memory are expanded to their changes of it. -/
theorem expandFrom_spell (fits : extent pieces ≤ pristine.length) :
    expandFrom done (spell pieces) pristine = .ok (done.reverse ++ patch pieces pristine) := by
  induction pieces generalizing done pristine with
  | nil => rw [spell, List.flatMap_nil, expandFrom, patch]
  | cons piece rest ih =>
    rw [extent_cons] at fits
    have behind : extent rest ≤ (pristine.drop piece.extent).length := by
      rw [List.length_drop]
      omega
    rw [spell_cons, patch]
    cases piece with
    | literal difference ne =>
      rw [Piece.extent, Nat.add_comm] at fits
      obtain ⟨p, others, rfl⟩ := List.exists_cons_of_length_pos (Nat.lt_of_lt_of_le
        (Nat.succ_pos _) fits)
      rw [Piece.bytes, List.singleton_append, expandFrom_literal ne]
      rw [Piece.extent, List.drop_one, List.tail_cons] at behind ⊢
      rw [ih behind]
      simp [Piece.change]
    | run more =>
      have exact : UInt8.ofNat (more.toNat + 1 - 1) = more := by
        rw [Nat.add_sub_cancel, UInt8.ofNat_toNat]
      have short : more.toNat + 1 ≤ longestRun := UInt8.toNat_lt more
      rw [Piece.extent] at fits behind ⊢
      have expand := @expandFrom_run done (spell rest) pristine _ (Nat.succ_pos _) short (by omega)
      rw [exact] at expand
      rw [Piece.bytes, List.cons_append, List.cons_append, List.nil_append, expand, ih behind]
      simp [Piece.change]

/-- Whatever is expanded spells pieces, and these do not reach beyond the pristine memory. -/
theorem exists_pieces_of_expandFrom (h : expandFrom done compressed pristine = .ok memory) :
    ∃ pieces, spell pieces = compressed ∧ extent pieces ≤ pristine.length := by
  fun_induction expandFrom done compressed pristine with
  | case1 => exact ⟨[], rfl, Nat.zero_le _⟩
  | case2 => cases h
  | case3 => cases h
  | case4 done pristine more compressed run enough ih =>
    obtain ⟨pieces, rfl, fits⟩ := ih h
    have covered : more.toNat + 1 ≤ pristine.length := by
      rw [List.length_take] at enough
      omega
    refine ⟨.run more :: pieces, rfl, ?_⟩
    rw [List.length_drop] at fits
    rw [extent_cons, Piece.extent]
    omega
  | case5 => cases h
  | case6 done difference compressed ne p pristine ih =>
    obtain ⟨pieces, rfl, fits⟩ := ih h
    refine ⟨.literal difference ne :: pieces, rfl, ?_⟩
    rw [extent_cons, Piece.extent, List.length_cons]
    omega

theorem decompress_spell (fits : extent pieces ≤ pristine.length) :
    decompress (spell pieces) pristine = .ok (patch pieces pristine) := by
  rw [decompress_eq]
  exact expandFrom_spell fits

/-- Compressed memory can be expanded just if it spells pieces that fit. -/
theorem decompress_ok_iff :
    (∃ memory, decompress compressed pristine = .ok memory) ↔
      ∃ pieces, spell pieces = compressed ∧ extent pieces ≤ pristine.length := by
  constructor
  · rintro ⟨memory, h⟩
    rw [decompress_eq] at h
    exact exists_pieces_of_expandFrom h
  · rintro ⟨pieces, rfl, fits⟩
    exact ⟨_, decompress_spell fits⟩

theorem eq_patch_of_decompress (h : decompress (spell pieces) pristine = .ok memory) :
    extent pieces ≤ pristine.length ∧ memory = patch pieces pristine := by
  obtain ⟨others, same, fits⟩ := decompress_ok_iff.mp ⟨memory, h⟩
  obtain rfl := spell_injective same
  rw [decompress_spell fits] at h
  cases h
  exact ⟨fits, rfl⟩

/-! ### Bytes of the memory -/

/-- What lies behind the first piece is patched by the other ones. -/
theorem getElem?_patch_cons (fits : piece.extent ≤ pristine.length) (behind : piece.extent ≤ i) :
    (patch (piece :: rest) pristine)[i]? =
      (patch rest (pristine.drop piece.extent))[i - piece.extent]? := by
  have length : (piece.change (pristine.take piece.extent)).length = piece.extent := by
    rw [Piece.length_change, List.length_take, Nat.min_eq_left fits]
  rw [patch, List.getElem?_append_right (by omega), length]

/-- The bytes that a piece stands for are those that it makes of the pristine ones. -/
theorem getElem?_patch_of_mem (fits : extent (front ++ piece :: back) ≤ pristine.length)
    (from_le : extent front ≤ i) (before : i < extent front + piece.extent) :
    (patch (front ++ piece :: back) pristine)[i]? = (piece.change pristine)[i]? := by
  induction front generalizing pristine i with
  | nil =>
    rw [List.nil_append, extent_cons] at fits
    rw [extent_nil, Nat.zero_add] at before
    have length : i < (piece.change (pristine.take piece.extent)).length := by
      rw [Piece.length_change, List.length_take]
      omega
    rw [List.nil_append, patch, List.getElem?_append_left length]
    cases piece <;> simp [Piece.change, List.getElem?_take_of_lt before]
  | cons first front ih =>
    rw [List.cons_append, extent_cons] at fits
    rw [extent_cons] at from_le before
    rw [List.cons_append, getElem?_patch_cons (by omega) (by omega),
      ih (by rw [List.length_drop]; omega) (by omega) (by omega)]
    have index : first.extent + (i - first.extent) = i := by omega
    cases piece <;> simp [Piece.change, List.getElem?_drop, index]

theorem getElem?_patch_of_extent_le (fits : extent pieces ≤ pristine.length)
    (behind : extent pieces ≤ i) : (patch pieces pristine)[i]? = pristine[i]? := by
  induction pieces generalizing pristine i with
  | nil => rfl
  | cons piece rest ih =>
    rw [extent_cons] at fits behind
    rw [getElem?_patch_cons (by omega) (by omega),
      ih (by rw [List.length_drop]; omega) (by omega), List.getElem?_drop]
    congr 1
    omega

theorem patched_of_decompress (h : decompress (spell pieces) pristine = .ok memory) :
    Patched pieces pristine memory := by
  obtain ⟨fits, rfl⟩ := eq_patch_of_decompress h
  refine ⟨?_, ?_, fun i => getElem?_patch_of_extent_le fits⟩
  · rintro front more back rfl i from_le upTo
    exact getElem?_patch_of_mem fits from_le (Nat.lt_succ_of_le upTo)
  · rintro front difference ne back rfl
    rw [getElem?_patch_of_mem fits (Nat.le_refl _) (Nat.lt_succ_self _)]
    exact List.getElem?_map

/-- Memory comes back from its difference, and what it lacks comes from the pristine memory.
Compressed memory can be expanded just if it is a sequence of literals and runs that do not reach
beyond the pristine memory. What it expands to is as long as the pristine memory, and the same but
for the literals: each of them changes the byte at its place, no other bytes change. -/
theorem lossless_and_exact (pristine : List UInt8) :
    (∀ current : List UInt8, current.length ≤ pristine.length →
      ∃ bytes, compress current pristine = .ok bytes ∧
        decompress bytes pristine = .ok (current ++ pristine.drop current.length)) ∧
    ∀ compressed : List UInt8,
      ((∃ memory, decompress compressed pristine = .ok memory) ↔
        ∃ pieces, spell pieces = compressed ∧ extent pieces ≤ pristine.length) ∧
      ∀ memory, decompress compressed pristine = .ok memory →
        memory.length = pristine.length ∧
        ∀ pieces, spell pieces = compressed → Patched pieces pristine memory := by
  refine ⟨fun current le => ⟨_, compress_eq _ _, decompress_compressed le⟩,
    fun compressed => ⟨decompress_ok_iff, ?_⟩⟩
  intro memory h
  refine ⟨length_of_decompress h, ?_⟩
  rintro pieces rfl
  exact patched_of_decompress h

/-- The third of three bytes has changed, and a fourth one is left out. -/
theorem lossless_threeOfFour :
    ([7, 7, 9] : List UInt8).length ≤ ([7, 7, 7, 7] : List UInt8).length ∧
      (∃ bytes, compress [7, 7, 9] [7, 7, 7, 7] = .ok bytes ∧
        decompress bytes [7, 7, 7, 7] = .ok [7, 7, 9, 7]) ∧
      decompress [0, 1, 14] [7, 7, 7, 7] = .ok [7, 7, 9, 7] ∧
      Patched [.run 1, .literal 14 (by decide)] [7, 7, 7, 7] [7, 7, 9, 7] := by
  obtain ⟨back, exactly⟩ := lossless_and_exact [7, 7, 7, 7]
  have expanded : decompress [0, 1, 14] [7, 7, 7, 7] = .ok [7, 7, 9, 7] := by rfl
  obtain ⟨-, patched⟩ := (exactly [0, 1, 14]).2 _ expanded
  exact ⟨by decide, back [7, 7, 9] (by decide), expanded, patched _ rfl⟩

end ZMachine.Difference
