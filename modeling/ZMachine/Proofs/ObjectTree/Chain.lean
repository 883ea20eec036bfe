import Mathlib.Data.List.Nodup
import Mathlib.Data.Finset.Card
import Mathlib.Order.Interval.Finset.Nat
import ZMachine.Machine.ObjectTree

/-!
# Chains of siblings

The links of a machine as a table of functions, `Links`, and what it means that following one of
them from an object goes through a list of objects and ends: `Chain`. Taking an object out of a
chain leads the link of the object before it past it (`Links.bypass_second`).
-/

namespace ZMachine

abbrev Links := Link → UInt16 → UInt16

def Among (n : Nat) (o : UInt16) : Prop :=
  o ≠ 0 ∧ o.toNat ≤ n

instance (n : Nat) (o : UInt16) : Decidable (Among n o) :=
  inferInstanceAs (Decidable (o ≠ 0 ∧ o.toNat ≤ n))

/-- From `first` on, `next` leads through the objects of a list and then to 0. -/
def Chain (next : UInt16 → UInt16) : UInt16 → List UInt16 → Prop
  | first, [] => first = 0
  | first, o :: rest => first = o ∧ o ≠ 0 ∧ Chain next (next o) rest

instance (next : UInt16 → UInt16) (first : UInt16) (xs : List UInt16) :
    Decidable (Chain next first xs) :=
  decideChain first xs
where
  decideChain (first : UInt16) : (xs : List UInt16) → Decidable (Chain next first xs)
    | [] => inferInstanceAs (Decidable (first = 0))
    | o :: rest =>
      have := decideChain (next o) rest
      inferInstanceAs (Decidable (first = o ∧ o ≠ 0 ∧ Chain next (next o) rest))

namespace Chain

variable {next other : UInt16 → UInt16} {first o p : UInt16} {xs ys : List UInt16}

theorem unique (h : Chain next first xs) (h' : Chain next first ys) : xs = ys := by
  induction xs generalizing first ys with
  | nil =>
    cases ys with
    | nil => rfl
    | cons y rest =>
      obtain ⟨rfl, ne, -⟩ := h'
      exact absurd h ne
  | cons x rest ih =>
    obtain ⟨rfl, ne, tail⟩ := h
    cases ys with
    | nil => exact absurd h' ne
    | cons y rest' =>
      obtain ⟨rfl, -, tail'⟩ := h'
      rw [ih tail tail']

theorem congr (agree : ∀ x ∈ xs, other x = next x) (h : Chain next first xs) :
    Chain other first xs := by
  induction xs generalizing first with
  | nil => exact h
  | cons x rest ih =>
    obtain ⟨rfl, ne, tail⟩ := h
    refine ⟨rfl, ne, ?_⟩
    rw [agree first List.mem_cons_self]
    exact ih (fun x mem => agree x (List.mem_cons_of_mem _ mem)) tail

/-- The chain from the object behind one of its objects. -/
theorem from_head (h : Chain next first xs) (mem : o ∈ xs) (head : first = o) :
    Chain next (next o) (xs.erase o) := by
  cases xs with
  | nil => cases mem
  | cons x rest =>
    obtain ⟨rfl, -, tail⟩ := h
    subst head
    rwa [List.erase_cons_head]

end Chain

/-- Objects of a list without repetition among the first `n` are at most `n`. -/
theorem length_le_of_among {n : Nat} {xs : List UInt16} (distinct : xs.Nodup)
    (among : ∀ o ∈ xs, Among n o) : xs.length ≤ n := by
  have numbers : (xs.map UInt16.toNat).Nodup :=
    distinct.map fun _ _ eq => UInt16.toNat_inj.mp eq
  have inside : (xs.map UInt16.toNat).toFinset ⊆ Finset.Icc 1 n := by
    intro k mem
    rw [List.mem_toFinset, List.mem_map] at mem
    obtain ⟨o, mem, rfl⟩ := mem
    obtain ⟨ne, le⟩ := among o mem
    have positive : o.toNat ≠ 0 := fun eq => ne (UInt16.toNat_inj.mp eq)
    rw [Finset.mem_Icc]
    omega
  have card := Finset.card_le_card inside
  rw [List.toFinset_card_of_nodup numbers, List.length_map, Nat.card_Icc] at card
  omega

namespace Links

def set (t : Links) (l : Link) (o target : UInt16) : Links :=
  fun l' x => if l' = l ∧ x = o then target else t l' x

variable {t : Links} {l l' : Link} {o p x target : UInt16} {xs : List UInt16}

@[simp] theorem set_same : (t.set l o target) l o = target := by
  simp [set]

theorem set_of_ne_link (ne : l' ≠ l) : (t.set l o target) l' x = t l' x := by
  simp [set, ne]

theorem set_of_ne (ne : x ≠ o) : (t.set l o target) l' x = t l' x := by
  simp [set, ne]

/-- The children of an object, from the first to the last. -/
def Children (t : Links) (p : UInt16) (xs : List UInt16) : Prop :=
  Chain (t .sibling) (t .child p) xs

instance (t : Links) (p : UInt16) (xs : List UInt16) : Decidable (t.Children p xs) :=
  inferInstanceAs (Decidable (Chain _ _ _))

/-- With the link of the first object led past the second one, the chain lacks the second one. -/
theorem bypass_second {first : UInt16} (h : Chain (t .sibling) first (first :: xs))
    (distinct : (first :: xs).Nodup) (mem : o ∈ xs) (second : t .sibling first = o) :
    Chain ((t.set .sibling first (t .sibling o)) .sibling) first (first :: xs.erase o) := by
  obtain ⟨-, ne, tail⟩ := h
  refine ⟨rfl, ne, ?_⟩
  rw [set_same]
  refine (tail.from_head mem second).congr fun y hy => set_of_ne ?_
  intro eq
  subst eq
  exact (List.nodup_cons.mp distinct).1 (List.mem_of_mem_erase hy)

end Links

end ZMachine
