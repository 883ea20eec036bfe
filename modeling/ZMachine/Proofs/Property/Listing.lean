import Mathlib.Data.List.Pairwise
import ZMachine.Machine.Property

/-!
# Property lists in memory

`memory.Lists address ps` says that the properties `ps` stand in memory one behind the other, the
size byte of the first one at the address, and that a size byte of zero ends them. Going through
memory from size byte to size byte goes through the list (`propertyAt_of_lists`), and the search for
a number, which stops early, finds what the list has under that number as long as the numbers
descend (`findPropertyFrom_of_lists`). Writing the data of a property leaves the list as it is
(`Lists.of_data`): size bytes are never data.
-/

namespace ZMachine

/-- The size byte of the property is at the address, and its data just behind it. -/
structure Property.StandsAt (p : Property) (memory : Memory) (address : Nat) : Prop where
  address_eq : p.address = address + 1
  number_pos : 0 < p.number
  number_le : p.number ≤ Machine.propertyLimit
  length_pos : 0 < p.length
  length_le : p.length ≤ 8
  size_eq : (memory.byte address).toNat = (p.length - 1) * 32 + p.number

instance (p : Property) (memory : Memory) (address : Nat) : Decidable (p.StandsAt memory address) :=
  decidable_of_iff
    (p.address = address + 1 ∧ 0 < p.number ∧ p.number ≤ Machine.propertyLimit ∧ 0 < p.length ∧
      p.length ≤ 8 ∧ (memory.byte address).toNat = (p.length - 1) * 32 + p.number)
    ⟨fun ⟨a, b, c, d, e, f⟩ => ⟨a, b, c, d, e, f⟩, fun ⟨a, b, c, d, e, f⟩ => ⟨a, b, c, d, e, f⟩⟩

/-- The address behind the data of a property. -/
def Property.next (p : Property) : Nat :=
  p.address + p.length

namespace Memory

/-- The properties stand one behind the other from an address on, up to a size byte of zero. -/
def Lists (memory : Memory) : Nat → List Property → Prop
  | address, [] => address < memory.size ∧ memory.byte address = 0
  | address, p :: rest => p.StandsAt memory address ∧ memory.Lists p.next rest

instance decidableLists (memory : Memory) :
    (address : Nat) → (ps : List Property) → Decidable (memory.Lists address ps)
  | address, [] => inferInstanceAs (Decidable (address < memory.size ∧ memory.byte address = 0))
  | address, p :: rest =>
    have := decidableLists memory p.next rest
    inferInstanceAs (Decidable (p.StandsAt memory address ∧ memory.Lists p.next rest))

/-- Where the size byte of zero is that ends the properties from an address on. -/
def listEnd : Nat → List Property → Nat
  | address, [] => address
  | _, p :: rest => listEnd p.next rest

variable {memory other : Memory} {address : Nat} {p q : Property} {ps front rest : List Property}

theorem Lists.behind (lists : memory.Lists address (front ++ p :: rest)) :
    memory.Lists p.next rest := by
  induction front generalizing address with
  | nil => exact lists.2
  | cons q front ih => exact ih lists.2

theorem Lists.standsAt (lists : memory.Lists address ps) (mem : p ∈ ps) :
    p.StandsAt memory (p.address - 1) := by
  induction ps generalizing address with
  | nil => cases mem
  | cons q rest ih =>
    obtain ⟨stands, behind⟩ := lists
    rcases List.mem_cons.mp mem with rfl | later
    · rw [stands.address_eq, Nat.add_sub_cancel]
      exact stands
    · exact ih behind later

theorem Lists.le_end (lists : memory.Lists address ps) : address ≤ listEnd address ps := by
  induction ps generalizing address with
  | nil => exact Nat.le_refl _
  | cons p rest ih =>
    have behind := ih lists.2
    have at_eq := lists.1.address_eq
    rw [Property.next] at behind
    rw [listEnd, Property.next]
    omega

theorem Lists.end_lt_size (lists : memory.Lists address ps) :
    listEnd address ps < memory.size := by
  induction ps generalizing address with
  | nil => exact lists.1
  | cons p rest ih => exact ih lists.2

/-- The data of a listed property lies between the first size byte and the last one. -/
theorem Lists.within (lists : memory.Lists address ps) (mem : p ∈ ps) :
    address < p.address ∧ p.next ≤ listEnd address ps := by
  induction ps generalizing address with
  | nil => cases mem
  | cons q rest ih =>
    obtain ⟨stands, behind⟩ := lists
    have at_eq := stands.address_eq
    rcases List.mem_cons.mp mem with rfl | later
    · exact ⟨by omega, behind.le_end⟩
    · obtain ⟨above, below⟩ := ih behind later
      rw [Property.next] at above
      exact ⟨by omega, below⟩

/-- Between the data of a property and that of a later one there is at least a size byte. -/
theorem Lists.pairwise (lists : memory.Lists address ps) :
    ps.Pairwise fun p q => p.next < q.address := by
  induction ps generalizing address with
  | nil => exact .nil
  | cons p rest ih =>
    obtain ⟨-, behind⟩ := lists
    exact .cons (fun q later => (behind.within later).1) (ih behind)

/-- The data of two listed properties does not overlap. -/
theorem Lists.apart (lists : memory.Lists address ps) (hp : p ∈ ps) (hq : q ∈ ps) (ne : p ≠ q) :
    p.next < q.address ∨ q.next < p.address := by
  have symm : Std.Symm fun p q : Property => p.next < q.address ∨ q.next < p.address :=
    ⟨fun _ _ => Or.symm⟩
  have either : ps.Pairwise fun p q => p.next < q.address ∨ q.next < p.address :=
    lists.pairwise.imp Or.inl
  exact either.forall hp hq ne

/-- A list depends on the bytes from its first size byte on alone. -/
theorem Lists.congr (lists : memory.Lists address ps) (size : other.size = memory.size)
    (same : ∀ a, address ≤ a → other.byte a = memory.byte a) : other.Lists address ps := by
  induction ps generalizing address with
  | nil =>
    obtain ⟨inside, ends⟩ := lists
    exact ⟨size.symm ▸ inside, (same address (Nat.le_refl _)).trans ends⟩
  | cons p rest ih =>
    obtain ⟨stands, behind⟩ := lists
    have at_eq := stands.address_eq
    refine ⟨{ stands with size_eq := ?_ }, ih behind fun a above => same a ?_⟩
    · rw [same address (Nat.le_refl _)]
      exact stands.size_eq
    · rw [Property.next] at above
      omega

/-- Nor does it depend on the data of its properties. -/
theorem Lists.of_data (lists : memory.Lists address ps) (mem : p ∈ ps)
    (size : other.size = memory.size)
    (same : ∀ a, a < p.address ∨ p.next ≤ a → other.byte a = memory.byte a) :
    other.Lists address ps := by
  induction ps generalizing address with
  | nil => cases mem
  | cons q rest ih =>
    have whole := lists.within mem
    obtain ⟨stands, behind⟩ := lists
    have size_eq : (other.byte address).toNat = (q.length - 1) * 32 + q.number := by
      rw [same address (Or.inl whole.1)]
      exact stands.size_eq
    refine ⟨{ stands with size_eq }, ?_⟩
    rcases List.mem_cons.mp mem with rfl | later
    · exact behind.congr size fun a above => same a (Or.inr above)
    · exact ih behind later

end Memory

namespace Machine

variable {m : Machine} {address number : Nat} {p : Property} {ps : List Property}

theorem propertyAt_of_standsAt (stands : p.StandsAt m.memory address) :
    m.propertyAt address = some p := by
  obtain ⟨number, start, length⟩ := p
  obtain ⟨at_eq, positive, bound, some, short, size_eq⟩ := stands
  dsimp only at at_eq positive bound some short size_eq
  rw [propertyLimit] at bound
  have nonzero : m.memory.byte address ≠ 0 := by
    intro zero
    rw [zero, UInt8.toNat_zero] at size_eq
    omega
  have number_eq : (m.memory.byte address).toNat % 32 = number := by omega
  have length_eq : lengthOfSizeByte (m.memory.byte address) = length := by
    rw [lengthOfSizeByte]
    omega
  simp only [propertyAt, if_neg nonzero, number_eq, length_eq, at_eq]

/-- From a size byte on, memory says what the list does. -/
theorem propertyAt_of_lists (lists : m.memory.Lists address ps) :
    m.propertyAt address = ps.head? := by
  cases ps with
  | nil => simp [propertyAt, lists.2]
  | cons p rest => exact propertyAt_of_standsAt lists.1

theorem findPropertyFrom_of_none (ends : m.propertyAt address = none) :
    m.findPropertyFrom number address = .ok none := by
  rw [findPropertyFrom_eq, ends]

theorem findPropertyFrom_of_some (found : m.propertyAt address = some p)
    (near : p.next < UInt64.size) :
    m.findPropertyFrom number address =
      if p.number = number then .ok (some p)
      else if p.number < number then .ok none
      else m.findPropertyFrom number p.next := by
  rw [Property.next] at near ⊢
  rw [findPropertyFrom_eq, found]
  dsimp only
  rw [if_neg (Nat.not_le.mpr near)]

/-- The search may stop at the first smaller number: all that follow are smaller still. -/
theorem findPropertyFrom_of_lists (lists : m.memory.Lists address ps)
    (descending : ps.Pairwise fun p q => q.number < p.number)
    (near : Memory.listEnd address ps < UInt64.size) :
    m.findPropertyFrom number address = .ok (ps.find? fun p => p.number = number) := by
  induction ps generalizing address with
  | nil => exact findPropertyFrom_of_none (propertyAt_of_lists lists)
  | cons p rest ih =>
    have next_le := (lists.within List.mem_cons_self).2
    obtain ⟨stands, behind⟩ := lists
    obtain ⟨smaller, descending⟩ := List.pairwise_cons.mp descending
    rw [findPropertyFrom_of_some (propertyAt_of_standsAt stands) (Nat.lt_of_le_of_lt next_le near)]
    by_cases this : p.number = number
    · rw [if_pos this, List.find?_cons_of_pos (by simpa using this)]
    · rw [if_neg this, List.find?_cons_of_neg (by simpa using this)]
      by_cases early : p.number < number
      · have absent : rest.find? (fun q => q.number = number) = none := by
          rw [List.find?_eq_none]
          intro q later
          have less := smaller q later
          simp only [decide_eq_true_eq]
          omega
        rw [if_pos early, absent]
      · rw [if_neg early]
        exact ih behind descending near

end Machine

theorem find?_number_of_mem {p : Property} {ps : List Property} (mem : p ∈ ps)
    (descending : ps.Pairwise fun p q => q.number < p.number) :
    ps.find? (fun q => q.number = p.number) = some p := by
  induction ps with
  | nil => cases mem
  | cons q rest ih =>
    obtain ⟨smaller, descending⟩ := List.pairwise_cons.mp descending
    rcases List.mem_cons.mp mem with rfl | later
    · exact List.find?_cons_of_pos (by simp)
    · have less := smaller p later
      rw [List.find?_cons_of_neg (by simp only [decide_eq_true_eq]; omega)]
      exact ih later descending

end ZMachine
