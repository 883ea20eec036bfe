import Mathlib.Algebra.BigOperators.Intervals
import Mathlib.Algebra.BigOperators.Ring.Finset
import Mathlib.Data.Fintype.EquivFin
import Mathlib.Data.Nat.GCD.Basic
import Mathlib.Data.Nat.Prime.Basic
import Mathlib.Dynamics.PeriodicPts.Defs
import Mathlib.Tactic.Ring
import ZMachine.Random

/-!
# The range and the period of random numbers

The seed of the generator runs through all numbers of 32 bits before it comes back, as its step is
`x ↦ a * x + c` with `a` one more than a multiple of 4 and `c` odd (`minimalPeriod_advance`). A
number that is drawn is in its range, and since every seed comes, so does every number of the range
(`ranged_and_attained`).
-/

namespace ZMachine.Random

open Function Finset

/-- The generator after some uses of `random`, with these operands. -/
def after (r : Random) (ranges : List Int) : Random :=
  ranges.foldl (fun r range => (r.roll range).2) r

def multiplier : Nat := 1103515245

def increment : Nat := 12345

def seedLimit : Nat := 2 ^ 32

/-- The step of the seed, not cut to 32 bits. -/
def unbounded (x : Nat) : Nat :=
  multiplier * x + increment

variable {a k n t : Nat} {r : Random}

/-! ### Powers of two in a geometric sum -/

/-- A geometric sum of even length is a multiple of the one of half the length. -/
theorem sum_pow_add_self (a n : Nat) :
    ∑ i ∈ range (n + n), a ^ i = (a ^ n + 1) * ∑ i ∈ range n, a ^ i := by
  rw [sum_range_add, add_mul, one_mul, add_comm, mul_sum]
  simp only [pow_add]

theorem pow_mod_four (one : a % 4 = 1) (n : Nat) : a ^ n % 4 = 1 := by
  rw [Nat.pow_mod, one, one_pow]
  rfl

theorem sum_pow_mod_two (one : a % 4 = 1) (n : Nat) : (∑ i ∈ range n, a ^ i) % 2 = n % 2 := by
  induction n with
  | zero => rfl
  | succ n ih =>
    have last := pow_mod_four one n
    rw [sum_range_succ]
    omega

/-- A geometric sum has the same powers of two as its length. Each time the length is halved, both
lose one factor of two. -/
theorem two_pow_dvd_sum_pow_iff (one : a % 4 = 1) (k n : Nat) :
    2 ^ k ∣ ∑ i ∈ range n, a ^ i ↔ 2 ^ k ∣ n := by
  induction k generalizing n with
  | zero => simp
  | succ k ih =>
    obtain ⟨half, rfl | rfl⟩ := Nat.even_or_odd' n
    · have fourth := pow_mod_four one half
      obtain ⟨m, twice⟩ : ∃ m, a ^ half + 1 = 2 * (2 * m + 1) := ⟨a ^ half / 4, by omega⟩
      have coprime : Nat.Coprime (2 ^ k) (2 * m + 1) := Nat.Coprime.pow_left k (by simp)
      calc 2 ^ (k + 1) ∣ ∑ i ∈ range (2 * half), a ^ i
          ↔ 2 * 2 ^ k ∣ 2 * ((2 * m + 1) * ∑ i ∈ range half, a ^ i) := by
            rw [two_mul half, sum_pow_add_self, twice, pow_succ', mul_assoc]
        _ ↔ 2 ^ k ∣ (2 * m + 1) * ∑ i ∈ range half, a ^ i := Nat.mul_dvd_mul_iff_left two_pos
        _ ↔ 2 ^ k ∣ ∑ i ∈ range half, a ^ i := coprime.dvd_mul_left
        _ ↔ 2 ^ k ∣ half := ih half
        _ ↔ 2 ^ (k + 1) ∣ 2 * half := by rw [pow_succ', Nat.mul_dvd_mul_iff_left two_pos]
    · have parity := sum_pow_mod_two one (2 * half + 1)
      have notDvd (s : Nat) (odd : s % 2 = 1) : ¬ 2 ^ (k + 1) ∣ s := by
        intro dvd
        have two : 2 ∣ s := (Dvd.intro_left _ (pow_succ 2 k).symm).trans dvd
        omega
      exact iff_of_false (notDvd _ (by omega)) (notDvd _ (by omega))

/-! ### The period of the seed -/

/-- How far repeated steps of such a form have moved a number. -/
theorem iterate_affine (d c n x : Nat) :
    (fun x => (d + 1) * x + c)^[n] x = x + (∑ i ∈ range n, (d + 1) ^ i) * (d * x + c) := by
  induction n with
  | zero => simp
  | succ n ih =>
    have sum : ∑ i ∈ range (n + 1), (d + 1) ^ i = (d + 1) * (∑ i ∈ range n, (d + 1) ^ i) + 1 := by
      rw [sum_range_succ', pow_zero, mul_sum]
      simp only [pow_succ']
    rw [iterate_succ_apply', ih, sum]
    ring

theorem toNat_advance (seed : UInt32) :
    (advance seed).toNat = unbounded seed.toNat % seedLimit := by
  simp only [advance, unbounded, multiplier, increment, seedLimit, UInt32.toNat_add,
    UInt32.toNat_mul, UInt32.toNat_ofNat]
  omega

theorem toNat_iterate_advance (n : Nat) (seed : UInt32) :
    (advance^[n] seed).toNat = unbounded^[n] seed.toNat % seedLimit := by
  induction n with
  | zero => exact (Nat.mod_eq_of_lt seed.toNat_lt).symm
  | succ n ih =>
    rw [iterate_succ_apply', iterate_succ_apply', toNat_advance, ih]
    simp only [unbounded, multiplier, increment, seedLimit]
    omega

/-- The seed comes back after multiples of all numbers of 32 bits. -/
theorem isPeriodicPt_advance_iff (n : Nat) (seed : UInt32) :
    IsPeriodicPt advance n seed ↔ seedLimit ∣ n := by
  have moved : unbounded^[n] seed.toNat = seed.toNat + (∑ i ∈ range n, multiplier ^ i) *
      ((multiplier - 1) * seed.toNat + increment) :=
    iterate_affine (multiplier - 1) increment n seed.toNat
  have odd : ((multiplier - 1) * seed.toNat + increment) % 2 = 1 := by
    simp only [multiplier, increment]
    omega
  have coprime : Nat.Coprime (2 ^ 32) ((multiplier - 1) * seed.toNat + increment) :=
    Nat.Coprime.pow_left 32 (Nat.coprime_two_left.mpr (Nat.odd_iff.mpr odd))
  have bound := seed.toNat_lt
  rw [IsPeriodicPt, IsFixedPt, ← UInt32.toNat_inj, toNat_iterate_advance]
  calc unbounded^[n] seed.toNat % seedLimit = seed.toNat
      ↔ 2 ^ 32 ∣ (∑ i ∈ range n, multiplier ^ i) *
          ((multiplier - 1) * seed.toNat + increment) := by
        rw [moved, seedLimit]
        generalize (∑ i ∈ range n, multiplier ^ i) * _ = distance
        omega
    _ ↔ 2 ^ 32 ∣ ∑ i ∈ range n, multiplier ^ i := coprime.dvd_mul_right
    _ ↔ seedLimit ∣ n := two_pow_dvd_sum_pow_iff rfl 32 n

theorem minimalPeriod_advance (seed : UInt32) : minimalPeriod advance seed = seedLimit := by
  apply Nat.dvd_antisymm
  · exact IsPeriodicPt.minimalPeriod_dvd ((isPeriodicPt_advance_iff _ _).mpr dvd_rfl)
  · exact (isPeriodicPt_advance_iff _ _).mp (isPeriodicPt_minimalPeriod _ _)

/-- Before the seed comes back, every number of 32 bits has been there: as many different ones
have. -/
theorem exists_iterate_advance (seed target : UInt32) :
    ∃ k < seedLimit, advance^[k] seed = target := by
  have distinct : Injective fun k : Fin seedLimit => (advance^[k] seed).toFin := by
    intro i j same
    have inside (k : Fin seedLimit) : k.val ∈ Set.Iio (minimalPeriod advance seed) := by
      rw [minimalPeriod_advance]
      exact k.isLt
    exact Fin.ext (iterate_injOn_Iio_minimalPeriod (inside i) (inside j)
      (UInt32.toFin_inj.mp same))
  obtain ⟨k, reached⟩ := Finite.surjective_of_injective distinct target.toFin
  exact ⟨k, k.isLt, UInt32.toFin_inj.mp reached⟩

/-! ### Drawing -/

/-- Of the seed, 15 bits from the middle are drawn, and reduced to the range. -/
theorem toNat_roll (r : Random) (positive : 0 < n) :
    (r.roll n).1.toNat = (advance r.seed).toNat / 0x10000 % 0x8000 % n + 1 := by
  have small := Nat.mod_le ((advance r.seed).toNat / 0x10000 % 0x8000) n
  rw [roll, if_pos (Int.natCast_pos.mpr positive)]
  simp only [draw, Int.toNat_natCast, UInt16.toNat_ofNat']
  omega

theorem seed_roll (r : Random) (positive : 0 < n) : (r.roll n).2.seed = advance r.seed := by
  rw [roll, if_pos (Int.natCast_pos.mpr positive)]
  rfl

theorem seed_after_replicate (r : Random) (positive : 0 < n) (k : Nat) :
    (r.after (List.replicate k n)).seed = advance^[k] r.seed := by
  induction k generalizing r with
  | zero => rfl
  | succ k ih =>
    rw [List.replicate_succ, after, List.foldl_cons, iterate_succ_apply, ← seed_roll r positive]
    exact ih _

theorem roll_mem_range (r : Random) (positive : 0 < n) :
    1 ≤ (r.roll n).1.toNat ∧ (r.roll n).1.toNat ≤ n := by
  have less := Nat.mod_lt ((advance r.seed).toNat / 0x10000 % 0x8000) positive
  rw [toNat_roll r positive]
  omega

/-- The seed from which a number of the range is drawn will come. -/
theorem exists_roll_eq (r : Random) (fits : n ≤ 32767) (least : 1 ≤ t) (most : t ≤ n) :
    ∃ k < seedLimit, ((r.after (List.replicate k n)).roll n).1.toNat = t := by
  have positive : 0 < n := by omega
  obtain ⟨k, bound, reached⟩ :=
    exists_iterate_advance (advance r.seed) (.ofNat ((t - 1) * 0x10000))
  refine ⟨k, bound, ?_⟩
  rw [toNat_roll _ positive, seed_after_replicate r positive, ← iterate_succ_apply' advance,
    iterate_succ_apply, reached, UInt32.toNat_ofNat']
  have drawn : (t - 1) * 0x10000 % 2 ^ 32 / 0x10000 % 0x8000 = t - 1 := by omega
  rw [drawn, Nat.mod_eq_of_lt (by omega)]
  omega

/-- Whatever seed the generator began with and however it has been used, a number of a range lies in
it, and each number of the range comes if one goes on asking: the seed runs through all numbers of
32 bits before it comes back. -/
theorem ranged_and_attained (r : Random) (ranges : List Int) :
    (∀ n : Nat, 0 < n → n ≤ 32767 →
      (1 ≤ ((r.after ranges).roll n).1.toNat ∧ ((r.after ranges).roll n).1.toNat ≤ n) ∧
      ∀ t : Nat, 1 ≤ t → t ≤ n →
        ∃ k < seedLimit, (((r.after ranges).after (List.replicate k n)).roll n).1.toNat = t) ∧
    ∀ seed, minimalPeriod advance seed = seedLimit ∧
      ∀ target, ∃ k < seedLimit, advance^[k] seed = target :=
  ⟨fun _ positive fits => ⟨roll_mem_range _ positive, fun _ => exists_roll_eq _ fits⟩,
    fun seed => ⟨minimalPeriod_advance seed, exists_iterate_advance seed⟩⟩

/-- Throws of a die after a new seed has been given. -/
theorem ranged_and_attained_die :
    ∃ k < seedLimit,
      1 ≤ (((predictable 1 (.always 0)).after [100, -42]).roll 6).1.toNat ∧
      (((predictable 1 (.always 0)).after [100, -42]).roll 6).1.toNat ≤ 6 ∧
      ((((predictable 1 (.always 0)).after [100, -42]).after
        (List.replicate k 6)).roll 6).1.toNat = 4 := by
  obtain ⟨drawn, -⟩ := ranged_and_attained (predictable 1 (.always 0)) [100, -42]
  obtain ⟨⟨least, most⟩, comes⟩ := drawn 6 (by decide) (by decide)
  obtain ⟨k, bound, four⟩ := comes 4 (by decide) (by decide)
  exact ⟨k, bound, least, most, four⟩

end ZMachine.Random
