import ZMachine.Proofs.Machine.Bounds
import ZMachine.Proofs.Machine.Write
import ZMachine.Proofs.ObjectTree.Chain

/-!
# Links in memory

A machine that has room for the objects 1 to `n` holds a table of links (`Holds`), and the
operations of the object tree act on that table: reading a link looks it up, setting one changes
that entry and no other, and unlinking an object changes the link of the sibling before it.
-/

namespace ZMachine.Machine

/-- The links of all objects; those without an entry lead to 0. -/
def links (m : Machine) : Links :=
  fun l o =>
    match link l o m with
    | .ok target => target
    | .error _ => 0

/-- The entries of the objects 1 to `n` lie in dynamic memory. -/
structure HoldsObjects (n : Nat) (m : Machine) : Prop where
  limit : n ≤ objectLimit
  dynamic : m.story.header.objectTable.toNat + propertyLimit * 2 + n * entrySize ≤ m.dynamicSize
  inside : m.story.header.objectTable.toNat + propertyLimit * 2 + n * entrySize ≤ m.memory.size

/-- The objects 1 to `n` are there, and these are the links. -/
structure Holds (n : Nat) (t : Links) (m : Machine) : Prop extends HoldsObjects n m where
  links_eq : m.links = t

def entryOf (m : Machine) (o : UInt16) : Nat :=
  m.story.header.objectTable.toNat + propertyLimit * 2 + (o.toNat - 1) * entrySize

variable {n : Nat} {m : Machine} {t : Links} {l l' : Link} {o x target first : UInt16}
  {xs : List UInt16}

theorem toNat_ne_zero (ne : o ≠ 0) : o.toNat ≠ 0 :=
  fun eq => ne (UInt16.toNat_inj.mp eq)

theorem objectAddress_of_among (h : HoldsObjects n m) (ho : Among n o) :
    objectAddress o m = .ok (m.entryOf o) := by
  have positive := toNat_ne_zero ho.1
  have limit := h.limit
  have inside := h.inside
  have bound := ho.2
  simp only [objectAddress_eq, entryOf]
  rw [if_neg]
  simp only [entrySize] at inside ⊢
  omega

theorem link_of_ok (ne : o ≠ 0) {address : Nat} (h : objectAddress o m = .ok address) :
    link l o m = .ok (.ofNat (m.memory.byte (address + l.offset)).toNat) := by
  simp only [link, if_neg ne, h]
  rfl

theorem links_zero : m.links l 0 = 0 := by
  simp only [links, link, if_pos]
  rfl

theorem links_of_ok (ne : o ≠ 0) {address : Nat} (h : objectAddress o m = .ok address) :
    m.links l o = .ofNat (m.memory.byte (address + l.offset)).toNat := by
  rw [links, link_of_ok ne h]

theorem links_of_error (ne : o ≠ 0) {e : MachineError} (h : objectAddress o m = .error e) :
    m.links l o = 0 := by
  simp only [links, link, if_neg ne, h]
  rfl

theorem link_eq (h : Holds n t m) (ho : Among n o) : link l o m = .ok (t l o) := by
  rw [← h.links_eq, links, link_of_ok ho.1 (objectAddress_of_among h.toHoldsObjects ho)]

/-- The bytes of different links of different objects are different. -/
theorem entryOf_add_offset_inj (ho : o ≠ 0) (hx : x ≠ 0)
    (eq : m.entryOf x + l'.offset = m.entryOf o + l.offset) : l' = l ∧ x = o := by
  have ho := toNat_ne_zero ho
  have hx := toNat_ne_zero hx
  simp only [entryOf, entrySize] at eq
  have objects : x.toNat = o.toNat := by
    cases l <;> cases l' <;> simp only [Link.offset] at eq <;> omega
  refine ⟨?_, UInt16.toNat_inj.mp objects⟩
  rw [objects] at eq
  cases l <;> cases l' <;> simp only [Link.offset] at eq <;> first | rfl | omega

theorem objectAddress_eq_entryOf {address : Nat} (h : objectAddress o m = .ok address) :
    address = m.entryOf o := by
  simp only [objectAddress_eq] at h
  split at h
  · cases h
  · cases h
    rfl

theorem links_withByte (h : HoldsObjects n m) (ho : Among n o) (ht : target.toNat ≤ objectLimit) :
    (m.withByte (m.entryOf o + l.offset) (.ofNat target.toNat)).links = m.links.set l o target := by
  have inside : m.entryOf o + l.offset < m.memory.size := by
    have size := h.inside
    have positive := toNat_ne_zero ho.1
    have bound := ho.2
    simp only [entryOf, entrySize] at size ⊢
    cases l <;> simp only [Link.offset] <;> omega
  funext l' x
  by_cases zero : x = 0
  · subst zero
    rw [links_zero, Links.set_of_ne ho.1.symm, links_zero]
  · have same : objectAddress x (m.withByte (m.entryOf o + l.offset) (.ofNat target.toNat)) =
        objectAddress x m := by
      simp only [objectAddress_eq, withByte, Memory.size_put]
    cases hx : objectAddress x m with
    | error e =>
      have other : x ≠ o := by
        intro eq
        subst eq
        rw [objectAddress_of_among h ho] at hx
        cases hx
      rw [hx] at same
      rw [Links.set_of_ne other, links_of_error zero hx, links_of_error zero same]
    | ok address =>
      rw [hx] at same
      have address_eq := objectAddress_eq_entryOf hx
      rw [links_of_ok zero same, Links.set, links_of_ok zero hx]
      simp only [withByte, Memory.byte_put]
      by_cases hit : l' = l ∧ x = o
      · obtain ⟨rfl, rfl⟩ := hit
        rw [if_pos ⟨by rw [address_eq], inside⟩, if_pos ⟨rfl, rfl⟩]
        apply UInt16.toNat_inj.mp
        simp only [objectLimit] at ht
        simp only [UInt8.toNat_ofNat', UInt16.toNat_ofNat']
        omega
      · rw [if_neg, if_neg hit]
        rintro ⟨eq, -⟩
        rw [address_eq] at eq
        exact hit (entryOf_add_offset_inj ho.1 zero eq.symm)

/-- Setting a link changes that link and no other. -/
theorem setLink_eq (h : Holds n t m) (ho : Among n o) (ht : target.toNat ≤ objectLimit) :
    ∃ m', setLink l o target m = .ok () m' ∧ Holds n (t.set l o target) m' := by
  have size := h.inside
  have dynamic := h.dynamic
  have below : m.entryOf o + l.offset <
      m.story.header.objectTable.toNat + propertyLimit * 2 + n * entrySize := by
    have positive := toNat_ne_zero ho.1
    have bound := ho.2
    simp only [entryOf, entrySize]
    cases l <;> simp only [Link.offset] <;> omega
  refine ⟨m.withByte (m.entryOf o + l.offset) (.ofNat target.toNat), ?_, ⟨?_, ?_⟩⟩
  · simp only [setLink, if_neg ho.1, if_neg (Nat.not_lt.mpr ht)]
    rw [bind_of_ok (query_of_ok (objectAddress_of_among h.toHoldsObjects ho))]
    exact writeByte_of_lt (below.trans_le dynamic) (below.trans_le size)
  · exact ⟨h.limit, dynamic, by simpa [withByte] using size⟩
  · rw [links_withByte h.toHoldsObjects ho ht, h.links_eq]

/-- Unlinking an object from the siblings behind the first one leads the link of the sibling before
it past it, and the chain of siblings loses the object and keeps its order. -/
theorem unlinkWithin_eq (h : Holds n t m) {fuel : Nat} (chain : Chain (t .sibling) first xs)
    (distinct : xs.Nodup) (among : ∀ x ∈ xs, Among n x) (mem : o ∈ xs) (later : first ≠ o)
    (enough : xs.length ≤ fuel) :
    ∃ c ∈ xs, c ≠ o ∧
      Chain ((t.set .sibling c (t .sibling o)) .sibling) first (xs.erase o) ∧
      ∀ next, unlinkWithin o next fuel first m = setLink .sibling c next m := by
  induction xs generalizing first fuel with
  | nil => cases mem
  | cons x rest ih =>
    have whole := chain
    obtain ⟨rfl, ne, tail⟩ := chain
    have mem : o ∈ rest := by
      rcases List.mem_cons.mp mem with eq | mem
      · exact absurd eq.symm later
      · exact mem
    rw [List.erase_cons_tail (by simpa using later)]
    rw [List.length_cons] at enough
    obtain ⟨fuel, rfl⟩ : ∃ k, fuel = k + 1 := Nat.exists_eq_succ_of_ne_zero (by omega)
    have sibling := query_of_ok (link_eq h (l := .sibling) (among first List.mem_cons_self))
    by_cases second : t .sibling first = o
    · refine ⟨first, List.mem_cons_self, later, ?_, fun next => ?_⟩
      · exact Links.bypass_second whole distinct mem second
      · rw [unlinkWithin, if_neg ne, bind_of_ok sibling, if_pos second]
    · obtain ⟨fresh, distinct⟩ := List.nodup_cons.mp distinct
      obtain ⟨c, hc, hne, chain, run⟩ :=
        ih tail distinct (fun x hx => among x (List.mem_cons_of_mem _ hx)) mem second
          (Nat.le_of_succ_le_succ enough)
      refine ⟨c, List.mem_cons_of_mem _ hc, hne, ⟨rfl, ne, ?_⟩, fun next => ?_⟩
      · have other : first ≠ c := by
          intro eq
          subst eq
          exact fresh hc
        rw [Links.set_of_ne other]
        exact chain
      · rw [unlinkWithin, if_neg ne, bind_of_ok sibling, if_neg second, run]

end ZMachine.Machine
