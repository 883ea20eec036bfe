import ZMachine.Proofs.Snapshot.Bounds

/-!
# Differences read back

Expanding what has been compressed gives the memory again. The proof follows the writer: a count of
unchanged bytes that have not been written yet stands for as many bytes of the pristine memory
(`expandFrom_writeFrom`).
-/

namespace ZMachine.Difference

variable {done rest pristine current : List UInt8}

theorem expandFrom_literal {b p : UInt8} (ne : b ≠ 0) :
    expandFrom done (b :: rest) (p :: pristine) = expandFrom ((p ^^^ b) :: done) rest pristine := by
  cases rest with
  | nil => rw [expandFrom.eq_3, if_neg ne]
  | cons n rest => rw [expandFrom.eq_5, if_neg ne]

/-- One pair for a run takes as many bytes from the pristine memory. -/
theorem expandFrom_run {count : Nat} (positive : 0 < count) (short : count ≤ longestRun)
    (le : count ≤ pristine.length) :
    expandFrom done (0 :: .ofNat (count - 1) :: rest) pristine =
      expandFrom ((pristine.take count).reverse ++ done) rest (pristine.drop count) := by
  have exact : (UInt8.ofNat (count - 1)).toNat + 1 = count := by
    simp only [longestRun] at short
    rw [UInt8.toNat_ofNat']
    omega
  obtain ⟨p, behind, rfl⟩ := List.exists_cons_of_length_pos (Nat.lt_of_lt_of_le positive le)
  rw [expandFrom, if_pos rfl]
  simp only [exact]
  rw [if_neg]
  rw [List.length_take]
  omega

/-- The pairs for a number of unchanged bytes take them from the pristine memory. -/
theorem expandFrom_runPairs {count : Nat} (le : count ≤ pristine.length) :
    expandFrom done (runPairs count ++ rest) pristine =
      expandFrom ((pristine.take count).reverse ++ done) rest (pristine.drop count) := by
  induction count using Nat.strongRecOn generalizing done pristine with
  | _ count ih =>
    rw [runPairs]
    split
    · next zero =>
      subst zero
      rfl
    · next ne =>
      have positive : 0 < min count longestRun := by
        simp only [longestRun]
        omega
      rw [List.cons_append, List.cons_append,
        expandFrom_run positive (Nat.min_le_right _ _) (Nat.le_trans (Nat.min_le_left _ _) le)]
      rcases Nat.le_total count longestRun with short | long
      · rw [Nat.min_eq_left short, Nat.sub_eq_zero_of_le short, runPairs, if_pos rfl]
        rfl
      · have smaller : count - longestRun < count := by
          simp only [longestRun]
          omega
        rw [Nat.min_eq_right long, ih _ smaller (by rw [List.length_drop]; omega)]
        rw [List.drop_drop, Nat.add_sub_cancel' long, ← List.append_assoc, ← List.reverse_append,
          ← List.take_add, Nat.add_sub_cancel' long]

/-- What the writer makes of differences, with `unchanged` bytes before them, expands to those bytes
and the memory with the differences. -/
theorem expandFrom_writeFrom {unchanged : Nat}
    (le : unchanged + current.length ≤ pristine.length) :
    expandFrom done
        (writeFrom unchanged (List.zipWith (· ^^^ ·) current (pristine.drop unchanged))) pristine =
      .ok (done.reverse ++ pristine.take unchanged ++ current ++
        pristine.drop (unchanged + current.length)) := by
  induction current generalizing unchanged done pristine with
  | nil =>
    rw [List.length_nil, Nat.add_zero] at le
    rw [List.zipWith_nil_left, writeFrom, ← List.append_nil (runPairs unchanged),
      expandFrom_runPairs le, expandFrom]
    simp
  | cons c rest ih =>
    rw [List.length_cons] at le
    obtain ⟨p, behind, split⟩ : ∃ p behind, pristine.drop unchanged = p :: behind := by
      cases split : pristine.drop unchanged with
      | nil =>
        rw [List.drop_eq_nil_iff] at split
        omega
      | cons p behind => exact ⟨p, behind, rfl⟩
    have behind_eq : behind = pristine.drop (unchanged + 1) := by
      rw [← List.drop_drop, split, List.drop_one, List.tail_cons]
    have take_eq : pristine.take (unchanged + 1) = pristine.take unchanged ++ [p] := by
      rw [List.take_add, split, List.take_succ_cons, List.take_zero]
    rw [split, List.zipWith_cons_cons, writeFrom]
    split
    · next same =>
      have eq : c = p := UInt8.xor_eq_zero_iff.mp same
      rw [behind_eq, ih (by omega), take_eq, eq, List.length_cons]
      simp [Nat.add_assoc, Nat.add_comm 1]
    · next other =>
      have restored : p ^^^ (c ^^^ p) = c := by
        rw [UInt8.xor_comm c p, ← UInt8.xor_assoc, UInt8.xor_self, UInt8.zero_xor]
      have length := congrArg List.length split
      rw [List.length_drop, List.length_cons] at length
      rw [expandFrom_runPairs (by omega), split, expandFrom_literal other, restored]
      have fits : 0 + rest.length ≤ behind.length := by omega
      have behind_run := @ih (c :: ((pristine.take unchanged).reverse ++ done)) behind 0 fits
      rw [List.drop_zero] at behind_run
      rw [behind_run, behind_eq, List.drop_drop]
      simp [Nat.add_assoc, Nat.add_comm 1]

/-- Memory that is no longer than the pristine one comes back from its difference, with what it
lacks from the pristine memory. -/
theorem decompress_compressed (le : current.length ≤ pristine.length) :
    decompress (compressed current pristine) pristine =
      .ok (current ++ pristine.drop current.length) := by
  have expand := @expandFrom_writeFrom [] pristine current 0 (by omega)
  rw [List.drop_zero, Nat.zero_add] at expand
  rw [decompress_eq, compressed, differences, Nat.sub_eq_zero_of_le le, List.replicate_zero,
    List.append_nil, expand]
  rfl

theorem length_runPairs_le (count : Nat) : (runPairs count).length ≤ 2 * count := by
  fun_induction runPairs count with
  | case1 => exact Nat.zero_le _
  | case2 count ne ih =>
    simp only [List.length_cons, longestRun] at ih ⊢
    omega

theorem length_writeFrom_le (unchanged : Nat) (ds : List UInt8) :
    (writeFrom unchanged ds).length ≤ 2 * (unchanged + ds.length) := by
  induction ds generalizing unchanged with
  | nil => exact length_runPairs_le unchanged
  | cons d rest ih =>
    rw [writeFrom]
    split
    · have bound := ih (unchanged + 1)
      rw [List.length_cons]
      omega
    · have run := length_runPairs_le unchanged
      have bound := ih 0
      rw [List.length_append, List.length_cons, List.length_cons]
      omega

/-- A difference takes at most twice as many bytes as the memory. -/
theorem length_compressed_le (current pristine : List UInt8) :
    (compressed current pristine).length ≤ 2 * current.length := by
  have bound := length_writeFrom_le 0 (differences current pristine)
  rw [length_differences] at bound
  rw [compressed]
  omega

theorem length_of_expandFrom {compressed memory : List UInt8}
    (h : expandFrom done compressed pristine = .ok memory) :
    memory.length = done.length + pristine.length := by
  fun_induction expandFrom done compressed pristine with
  | case1 =>
    cases h
    rw [List.length_append, List.length_reverse]
  | case2 => cases h
  | case3 => cases h
  | case4 done pristine n compressed run enough ih =>
    rw [ih h]
    have le : run.length ≤ n.toNat + 1 := List.length_take_le _ _
    have inside : run.length ≤ pristine.length := List.length_take_le' _ _
    have taken : run.length = n.toNat + 1 := by omega
    rw [List.length_append, List.length_reverse, List.length_drop, taken]
    omega
  | case5 => cases h
  | case6 done b compressed ne p pristine ih =>
    rw [ih h]
    simp only [List.length_cons]
    omega

theorem length_of_decompress {compressed memory : List UInt8}
    (h : decompress compressed pristine = .ok memory) : memory.length = pristine.length := by
  rw [decompress_eq] at h
  rw [length_of_expandFrom h]
  exact Nat.zero_add _

end ZMachine.Difference
