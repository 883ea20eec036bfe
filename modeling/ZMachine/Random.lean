import ZMachine.Word

/-!
# Random numbers

A linear congruential generator of 32 bits. It is predictable after a seed has been given, by the
configuration or by a negative operand of `random`; a zero operand makes it unpredictable. The seeds
that nobody can predict come from outside, one whenever one is asked for.
-/

namespace ZMachine

inductive RandomMode where
  | predictable
  | uniform
  deriving DecidableEq, Repr

/-- The unpredictable seeds that are supplied from outside, in the order in which they are asked
for, and how many have been. -/
structure Entropy where
  supply : Nat → UInt32
  asked : Nat := 0

namespace Entropy

def next (entropy : Entropy) : UInt32 × Entropy :=
  (entropy.supply entropy.asked, { entropy with asked := entropy.asked + 1 })

/-- The same seed again and again. -/
def always (seed : UInt32) : Entropy :=
  { supply := fun _ => seed }

end Entropy

structure Random where
  seed : UInt32
  mode : RandomMode
  entropy : Entropy

namespace Random

def advance (seed : UInt32) : UInt32 :=
  seed * 1103515245 + 12345

def predictable (seed : UInt32) (entropy : Entropy) : Random :=
  { seed, mode := .predictable, entropy }

/-- A generator with the next unpredictable seed. -/
def uniform (entropy : Entropy) : Random :=
  { seed := entropy.next.1, mode := .uniform, entropy := entropy.next.2 }

def draw (r : Random) : Nat × Random :=
  let seed := advance r.seed
  (seed.toNat / 0x10000 % 0x8000, { r with seed })

/-- The instruction `random`: a number from 1 to a positive `range`; otherwise 0, and a new
seed. -/
def roll (r : Random) (range : Int) : UInt16 × Random :=
  if 0 < range then
    let (n, r) := r.draw
    (.ofNat (n % range.toNat + 1), r)
  else if range = 0 then (0, uniform r.entropy)
  else (0, predictable (.ofNat range.natAbs) r.entropy)

@[simp]
theorem entropy_draw (r : Random) : r.draw.2.entropy = r.entropy := by
  cases r
  rfl

variable {range : Int}

theorem roll_of_pos (r : Random) (positive : 0 < range) :
    r.roll range = (.ofNat (r.draw.1 % range.toNat + 1), r.draw.2) := by
  rw [roll, if_pos positive]

theorem roll_zero (r : Random) : r.roll 0 = (0, uniform r.entropy) := by
  rw [roll, if_neg (Int.lt_irrefl 0), if_pos rfl]

theorem roll_of_neg (r : Random) (negative : range < 0) :
    r.roll range = (0, predictable (.ofNat range.natAbs) r.entropy) := by
  rw [roll, if_neg (Int.not_lt.mpr (Int.le_of_lt negative)), if_neg (Int.ne_of_lt negative)]

end Random

end ZMachine
