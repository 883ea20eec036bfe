import Mathlib.Logic.Relation
import ZMachine.Proofs.ObjectTree.Links

/-!
# Moves of objects

A table of links is consistent if following the children of each object visits exactly the objects
that have it as their parent, each once. `removeObject` and `insertObject` never fail on such a
table; they keep it consistent, change only the lists of children that the move is about, and keep
the tree free of cycles unless an object goes into itself or into something inside it. The result
for single moves is `Machine.Move.run_eq`; `Machine.carriesOut_of_consistent` is about any sequence
of them.
-/

namespace ZMachine

namespace Links

/-- Every link of the objects 1 to `n` leads to one of them or to 0. -/
def Bounded (t : Links) (n : Nat) : Prop :=
  ∀ l o, Among n o → (t l o).toNat ≤ n

/-- The children of each object are listed, each once. -/
structure Consistent (t : Links) (n : Nat) : Prop where
  bounded : t.Bounded n
  listed : ∀ p, Among n p → ∃ xs, t.Children p xs ∧ xs.Nodup ∧
    ∀ o, o ∈ xs ↔ Among n o ∧ t .parent o = p

def Inside (t : Links) (n : Nat) (o p : UInt16) : Prop :=
  Among n o ∧ p ≠ 0 ∧ t .parent o = p

/-- No object is inside itself, directly or not. -/
def Acyclic (t : Links) (n : Nat) : Prop :=
  ∀ o, ¬ Relation.TransGen (t.Inside n) o o

variable {t t' : Links} {n : Nat} {l : Link} {o d p c x target : UInt16} {xs : List UInt16}

theorem Bounded.set (h : t.Bounded n) (ht : target.toNat ≤ n) : (t.set l o target).Bounded n := by
  intro l' x hx
  simp only [Links.set]
  split
  · exact ht
  · exact h l' x hx

/-- A list of children is the one that consistency speaks of. -/
theorem Consistent.of_children (h : t.Consistent n) (hp : Among n p) (hxs : t.Children p xs) :
    xs.Nodup ∧ ∀ o, o ∈ xs ↔ Among n o ∧ t .parent o = p := by
  obtain ⟨ys, chain, distinct, members⟩ := h.listed p hp
  obtain rfl := hxs.unique chain
  exact ⟨distinct, members⟩

/-- An object is in no other list than that of its parent. -/
theorem Consistent.notMem_of_parent_ne (h : t.Consistent n) (hp : Among n p)
    (hxs : t.Children p xs) (ne : t .parent o ≠ p) : o ∉ xs := by
  rw [(h.of_children hp hxs).2]
  rintro ⟨-, eq⟩
  exact ne eq

/-! ### Taking an object out -/

/-- The object has no parent any more, and its old list of children has lost it. -/
structure Detached (t t' : Links) (n : Nat) (o : UInt16) : Prop where
  bounded : t'.Bounded n
  parent : ∀ x, t' .parent x = if x = o then 0 else t .parent x
  lists : ∀ p xs, Among n p → t.Children p xs → t'.Children p (xs.erase o)

theorem Detached.consistent (h : t.Consistent n) (detached : Detached t t' n o) :
    t'.Consistent n := by
  refine ⟨detached.bounded, fun p hp => ?_⟩
  obtain ⟨xs, chain, distinct, members⟩ := h.listed p hp
  refine ⟨xs.erase o, detached.lists p xs hp chain, distinct.erase o, fun x => ?_⟩
  rw [distinct.mem_erase_iff, members, detached.parent]
  by_cases hx : x = o
  · simp [hx, hp.1.symm]
  · simp [hx]

theorem detached_of_no_parent (h : t.Consistent n) (free : t .parent o = 0) :
    Detached t t n o where
  bounded := h.bounded
  parent x := by
    split
    · next eq => rw [eq, free]
    · rfl
  lists p xs hp hxs := by
    have absent : o ∉ xs := h.notMem_of_parent_ne hp hxs (free ▸ hp.1.symm)
    rwa [List.erase_of_not_mem absent]

/-- The links with an object that has neither parent nor siblings. -/
def release (t : Links) (o : UInt16) : Links :=
  (t.set .parent o 0).set .sibling o 0

theorem release_parent : (t.release o) .parent x = if x = o then 0 else t .parent x := by
  simp [release, set]

theorem release_child : (t.release o) .child x = t .child x := by
  simp [release, set]

theorem release_sibling (ne : x ≠ o) : (t.release o) .sibling x = t .sibling x := by
  simp [release, set, ne]

theorem Bounded.release (h : t.Bounded n) : (t.release o).Bounded n :=
  have zero : (0 : UInt16).toNat ≤ n := Nat.zero_le n
  (h.set zero).set zero

/-- Releasing an object that a chain of siblings does not hold leaves the chain alone. -/
theorem chain_release {first : UInt16} (absent : o ∉ xs) (h : Chain (t .sibling) first xs) :
    Chain ((t.release o) .sibling) first xs := by
  refine h.congr fun x hx => release_sibling ?_
  intro eq
  subst eq
  exact absent hx

/-- The first child is taken out by leading its parent's link past it. -/
theorem detached_of_first (h : t.Consistent n) (hp : Among n p) (ho : Among n o)
    (parent : t .parent o = p) (first : t .child p = o) :
    Detached t ((t.set .child p (t .sibling o)).release o) n o where
  bounded := (h.bounded.set (h.bounded .sibling o ho)).release
  parent x := by
    rw [release_parent, set_of_ne_link (by decide)]
  lists q xs hq hxs := by
    obtain ⟨distinct, members⟩ := h.of_children hq hxs
    refine chain_release distinct.not_mem_erase ?_
    rw [release_child]
    have siblings : (t.set .child p (t .sibling o)) .sibling = t .sibling :=
      funext fun x => set_of_ne_link (by decide)
    rw [siblings]
    by_cases eq : q = p
    · subst eq
      rw [set_same]
      exact Chain.from_head hxs ((members o).mpr ⟨ho, parent⟩) first
    · have absent : o ∉ xs := h.notMem_of_parent_ne hq hxs (parent ▸ Ne.symm eq)
      rw [set_of_ne eq, List.erase_of_not_mem absent]
      exact hxs

/-- A later child is taken out by leading the link of the sibling before it past it. -/
theorem detached_of_later (h : t.Consistent n) (ho : Among n o) (parent : t .parent o = p)
    (hc : c ∈ xs) (hxs : t.Children p xs) (hp : Among n p)
    (chain : Chain ((t.set .sibling c (t .sibling o)) .sibling) (t .child p) (xs.erase o)) :
    Detached t ((t.set .sibling c (t .sibling o)).release o) n o where
  bounded := (h.bounded.set (h.bounded .sibling o ho)).release
  parent x := by
    rw [release_parent, set_of_ne_link (by decide)]
  lists q ys hq hys := by
    obtain ⟨distinct, members⟩ := h.of_children hq hys
    refine chain_release distinct.not_mem_erase ?_
    rw [release_child, set_of_ne_link (by decide)]
    by_cases eq : q = p
    · subst eq
      obtain rfl := hxs.unique hys
      exact chain
    · have absent : o ∉ ys := h.notMem_of_parent_ne hq hys (parent ▸ Ne.symm eq)
      rw [List.erase_of_not_mem absent]
      refine Chain.congr (fun x hx => set_of_ne ?_) hys
      intro eq
      subst eq
      exact eq (((members x).mp hx).2.symm.trans (((h.of_children hp hxs).2 x).mp hc).2)

/-! ### Putting an object in -/

def attach (t : Links) (o d : UInt16) : Links :=
  ((t.set .sibling o (t .child d)).set .parent o d).set .child d o

theorem attach_parent : (t.attach o d) .parent x = if x = o then d else t .parent x := by
  simp [attach, set]

theorem attach_child : (t.attach o d) .child x = if x = d then o else t .child x := by
  simp [attach, set]

theorem attach_sibling :
    (t.attach o d) .sibling x = if x = o then t .child d else t .sibling x := by
  simp [attach, set]

theorem children_attach (h : t.Consistent n) (free : t .parent o = 0) (ho : o ≠ 0)
    (hp : Among n p) (hxs : t.Children p xs) :
    (t.attach o d).Children p (if p = d then o :: xs else xs) := by
  have absent : o ∉ xs := h.notMem_of_parent_ne hp hxs (free ▸ hp.1.symm)
  have chain : Chain ((t.attach o d) .sibling) (t .child p) xs := by
    refine Chain.congr (fun x hx => ?_) hxs
    rw [attach_sibling, if_neg]
    intro eq
    subst eq
    exact absent hx
  by_cases eq : p = d
  · subst eq
    rw [if_pos rfl]
    refine ⟨?_, ho, ?_⟩
    · rw [attach_child, if_pos rfl]
    · rw [attach_sibling, if_pos rfl]
      exact chain
  · rw [if_neg eq, Children, attach_child, if_neg eq]
    exact chain

theorem Consistent.attach (h : t.Consistent n) (free : t .parent o = 0) (ho : Among n o)
    (hd : Among n d) : (t.attach o d).Consistent n := by
  refine ⟨?_, fun p hp => ?_⟩
  · exact ((h.bounded.set (h.bounded .child d hd)).set hd.2).set ho.2
  · obtain ⟨xs, chain, distinct, members⟩ := h.listed p hp
    have absent : o ∉ xs := h.notMem_of_parent_ne hp chain (free ▸ hp.1.symm)
    refine ⟨_, children_attach h free ho.1 hp chain, ?_, fun x => ?_⟩
    · split
      · exact List.nodup_cons.mpr ⟨absent, distinct⟩
      · exact distinct
    · rw [attach_parent]
      by_cases hx : x = o
      · subst hx
        by_cases eq : p = d
        · simp [eq, ho]
        · simp [eq, Ne.symm eq, absent]
      · by_cases eq : p = d
        · rw [if_pos eq, List.mem_cons, members, if_neg hx]
          exact or_iff_right hx
        · rw [if_neg eq, members, if_neg hx]

/-! ### Cycles -/

theorem Acyclic.mono (h : t.Acyclic n) (sub : ∀ o p, t'.Inside n o p → t.Inside n o p) :
    t'.Acyclic n :=
  fun o cycle => h o (Relation.TransGen.mono sub o o cycle)

/-- A way up that may use one new step either does not use it or leads up to it and away from it;
it cannot do so twice, as nothing leads back. -/
theorem transGen_of_added {r s : UInt16 → UInt16 → Prop}
    (sub : ∀ a b, s a b → r a b ∨ a = o ∧ b = d) (apart : ¬ Relation.ReflTransGen r d o)
    {a b : UInt16} (path : Relation.TransGen s a b) :
    Relation.TransGen r a b ∨ Relation.ReflTransGen r a o ∧ Relation.ReflTransGen r d b := by
  induction path with
  | single step =>
    rcases sub _ _ step with old | ⟨rfl, rfl⟩
    · exact Or.inl (.single old)
    · exact Or.inr ⟨.refl, .refl⟩
  | tail _ step ih =>
    rcases sub _ _ step with old | ⟨rfl, rfl⟩
    · rcases ih with way | ⟨up, away⟩
      · exact Or.inl (way.tail old)
      · exact Or.inr ⟨up, away.tail old⟩
    · rcases ih with way | ⟨-, away⟩
      · exact Or.inr ⟨way.to_reflTransGen, .refl⟩
      · exact absurd away apart

/-- One new step makes no cycle unless the object that it leads to was inside the one that it
comes from. -/
theorem Acyclic.of_added (h : t.Acyclic n)
    (sub : ∀ a b, t'.Inside n a b → t.Inside n a b ∨ a = o ∧ b = d)
    (apart : ¬ Relation.ReflTransGen (t.Inside n) d o) : t'.Acyclic n := by
  intro x cycle
  rcases transGen_of_added sub apart cycle with way | ⟨up, away⟩
  · exact h x way
  · exact apart (away.trans up)

end Links

namespace Machine

/-- A move of an object: into another one or, for destination 0 or by `remove`, out of the tree. -/
inductive Move where
  | insert (object destination : UInt16)
  | remove (object : UInt16)
  deriving DecidableEq, Repr

namespace Move

def object : Move → UInt16
  | insert o _ => o
  | remove o => o

/-- Where the object goes; 0 if only out of the tree. -/
def destination : Move → UInt16
  | insert _ d => d
  | remove _ => 0

def run : Move → MachineM Unit
  | insert o d => insertObject o d
  | remove o => removeObject o

/-- The move is about the objects 1 to `n`; the destination may be 0. -/
def Within (n : Nat) (move : Move) : Prop :=
  Among n move.object ∧ move.destination.toNat ≤ n

/-- The object does not go into itself or into something inside it. -/
def Outward (t : Links) (n : Nat) : Move → Prop
  | insert o d => ¬ Relation.ReflTransGen (t.Inside n) d o
  | remove _ => True

/-- The children of `p` after the move, if they were `xs` before it and `parent` was the parent of
the object. -/
def childrenAfter (move : Move) (parent p : UInt16) (xs : List UInt16) : List UInt16 :=
  let rest := if p = parent then xs.erase move.object else xs
  if p = move.destination then move.object :: rest else rest

structure Effect (n : Nat) (t t' : Links) (move : Move) : Prop where
  lists : ∀ p xs, Among n p → t.Children p xs →
    t'.Children p (move.childrenAfter (t .parent move.object) p xs)
  detached : move.destination = 0 → t' .parent move.object = 0
  acyclic : t.Acyclic n → move.Outward t n → t'.Acyclic n

end Move

variable {n : Nat} {m : Machine} {t : Links} {o d : UInt16}

private theorem release_eq (h : Holds n t m) (ho : Among n o) :
    ∃ m', (do setLink .parent o 0; setLink .sibling o 0 : MachineM Unit) m = .ok () m' ∧
      Holds n (t.release o) m' := by
  have zero : (0 : UInt16).toNat ≤ objectLimit := Nat.zero_le _
  obtain ⟨m₁, run₁, h₁⟩ := setLink_eq h (l := .parent) ho zero
  obtain ⟨m₂, run₂, h₂⟩ := setLink_eq h₁ (l := .sibling) ho zero
  exact ⟨m₂, (bind_of_ok run₁).trans run₂, h₂⟩

theorem removeObject_eq (h : Holds n t m) (consistent : t.Consistent n) (ho : Among n o) :
    ∃ m' t', removeObject o m = .ok () m' ∧ Holds n t' m' ∧ Links.Detached t t' n o := by
  have parent := query_of_ok (link_eq h (l := .parent) ho)
  rw [removeObject, if_neg ho.1, bind_of_ok parent]
  by_cases free : t .parent o = 0
  · rw [if_pos free]
    exact ⟨m, t, rfl, h, Links.detached_of_no_parent consistent free⟩
  · have hp : Among n (t .parent o) := ⟨free, consistent.bounded .parent o ho⟩
    obtain ⟨xs, chain, distinct, members⟩ := consistent.listed _ hp
    have among : ∀ x ∈ xs, Among n x := fun x hx => ((members x).mp hx).1
    have mem : o ∈ xs := (members o).mpr ⟨ho, rfl⟩
    have next : (t .sibling o).toNat ≤ objectLimit :=
      (consistent.bounded .sibling o ho).trans h.limit
    rw [if_neg free, bind_of_ok (query_of_ok (link_eq h (l := .sibling) ho)),
      bind_of_ok (query_of_ok (link_eq h (l := .child) hp))]
    by_cases first : t .child (t .parent o) = o
    · obtain ⟨m₁, run₁, h₁⟩ := setLink_eq h (l := .child) hp next
      obtain ⟨m₂, run₂, h₂⟩ := release_eq h₁ ho
      refine ⟨m₂, _, ?_, h₂, Links.detached_of_first consistent hp ho rfl first⟩
      rw [if_pos first]
      exact (bind_of_ok run₁).trans run₂
    · have enough : xs.length ≤ objectLimit + 1 - 0 :=
        (length_le_of_among distinct among).trans (h.limit.trans (Nat.le_succ _))
      obtain ⟨c, hc, -, bypass, unlink⟩ :=
        unlinkWithin_eq h chain distinct among mem first enough
      obtain ⟨m₁, run₁, h₁⟩ := setLink_eq h (l := .sibling) (among c hc) next
      obtain ⟨m₂, run₂, h₂⟩ := release_eq h₁ ho
      refine ⟨m₂, _, ?_, h₂, Links.detached_of_later consistent ho rfl hc chain hp bypass⟩
      rw [if_neg first]
      rw [unlinkFrom_eq_unlinkWithin]
      exact (bind_of_ok ((unlink _).trans run₁)).trans run₂

/-- Putting an object into another one takes it out of its parent and then makes it the first
child. -/
theorem insertObject_eq (h : Holds n t m) (consistent : t.Consistent n) (ho : Among n o)
    (hd : Among n d) :
    ∃ m' t', insertObject o d m = .ok () m' ∧ Holds n (t'.attach o d) m' ∧
      Links.Detached t t' n o := by
  obtain ⟨m₁, t₁, run₁, h₁, detached⟩ := removeObject_eq h consistent ho
  have first : (t₁ .child d).toNat ≤ objectLimit :=
    (detached.bounded .child d hd).trans h.limit
  obtain ⟨m₂, run₂, h₂⟩ := setLink_eq h₁ (l := .sibling) ho first
  obtain ⟨m₃, run₃, h₃⟩ := setLink_eq h₂ (l := .parent) ho (hd.2.trans h.limit)
  obtain ⟨m₄, run₄, h₄⟩ := setLink_eq h₃ (l := .child) hd (ho.2.trans h.limit)
  refine ⟨m₄, t₁, ?_, h₄, detached⟩
  rw [insertObject, if_neg ho.1, bind_of_ok run₁, if_neg hd.1,
    bind_of_ok (query_of_ok (link_eq h₁ (l := .child) hd)), bind_of_ok run₂, bind_of_ok run₃, run₄]

namespace Move

/-- An object is only in the list of its parent: taken out of that one, it is out of all. -/
theorem childrenAfter_eq (consistent : t.Consistent n) {p : UInt16} {xs : List UInt16}
    (hp : Among n p) (hxs : t.Children p xs) (move : Move) :
    move.childrenAfter (t .parent move.object) p xs =
      if p = move.destination then move.object :: xs.erase move.object
      else xs.erase move.object := by
  have rest : (if p = t .parent move.object then xs.erase move.object else xs) =
      xs.erase move.object := by
    split
    · rfl
    · next other =>
      have absent : move.object ∉ xs := consistent.notMem_of_parent_ne hp hxs (Ne.symm other)
      rw [List.erase_of_not_mem absent]
  rw [childrenAfter, rest]

/-- The effect of taking an object out, be it by `remove` or by a move to 0. -/
theorem effect_of_detached {t' : Links} {move : Move} (consistent : t.Consistent n)
    (out : move.destination = 0) (detached : Links.Detached t t' n move.object) :
    Effect n t t' move where
  lists p xs hp hxs := by
    rw [childrenAfter_eq consistent hp hxs, out, if_neg hp.1]
    exact detached.lists p xs hp hxs
  detached _ := by rw [detached.parent, if_pos rfl]
  acyclic acyclic _ := by
    refine acyclic.mono fun x p inside => ?_
    obtain ⟨hx, hp, parent⟩ := inside
    rw [detached.parent] at parent
    split at parent
    · exact absurd parent.symm hp
    · exact ⟨hx, hp, parent⟩

theorem effect_of_attached {t' : Links} (consistent : t.Consistent n) (ho : Among n o)
    (hd : Among n d) (detached : Links.Detached t t' n o) :
    Effect n t (t'.attach o d) (insert o d) where
  lists p xs hp hxs := by
    have free : t' .parent o = 0 := by rw [detached.parent, if_pos rfl]
    rw [childrenAfter_eq consistent hp hxs]
    exact Links.children_attach (detached.consistent consistent) free ho.1 hp
      (detached.lists p xs hp hxs)
  detached zero := absurd zero hd.1
  acyclic acyclic outward := by
    refine acyclic.of_added (fun a b inside => ?_) outward
    obtain ⟨ha, hb, parent⟩ := inside
    rw [Links.attach_parent] at parent
    by_cases eq : a = o
    · rw [if_pos eq] at parent
      exact Or.inr ⟨eq, parent.symm⟩
    · rw [if_neg eq, detached.parent, if_neg eq] at parent
      exact Or.inl ⟨ha, hb, parent⟩

/-- A move in a consistent tree succeeds, keeps it consistent, and has its effect. -/
theorem run_eq {move : Move} (h : Holds n t m) (consistent : t.Consistent n)
    (within : move.Within n) :
    ∃ m' t', move.run m = .ok () m' ∧ Holds n t' m' ∧ t'.Consistent n ∧ Effect n t t' move := by
  cases move with
  | remove o =>
    have ho : Among n o := within.1
    obtain ⟨m', t', run, h', detached⟩ := removeObject_eq h consistent ho
    exact ⟨m', t', run, h', detached.consistent consistent,
      effect_of_detached consistent rfl detached⟩
  | insert o d =>
    have ho : Among n o := within.1
    have hd : d.toNat ≤ n := within.2
    by_cases zero : d = 0
    · subst zero
      obtain ⟨m', t', run, h', detached⟩ := removeObject_eq h consistent ho
      refine ⟨m', t', ?_, h', detached.consistent consistent,
        effect_of_detached consistent rfl detached⟩
      simp only [Move.run, insertObject, if_neg ho.1, if_pos]
      exact bind_of_ok run
    · obtain ⟨m', t', run, h', detached⟩ := insertObject_eq h consistent ho ⟨zero, hd⟩
      have free : t' .parent o = 0 := by rw [detached.parent, if_pos rfl]
      exact ⟨m', _, run, h', (detached.consistent consistent).attach free ho ⟨zero, hd⟩,
        effect_of_attached consistent ho ⟨zero, hd⟩ detached⟩

end Move

/-- The moves of a sequence succeed one after the other, and each leaves a consistent tree and has
its effect on the tree before it. -/
def CarriesOut (n : Nat) : List Move → Machine → Prop
  | [], _ => True
  | move :: rest, m =>
    ∃ m', move.run m = .ok () m' ∧ m'.links.Consistent n ∧ move.Effect n m.links m'.links ∧
      CarriesOut n rest m'

/-- Any sequence of moves can be carried out in a consistent tree. -/
theorem carriesOut_of_consistent (objects : HoldsObjects n m)
    (consistent : m.links.Consistent n) {moves : List Move}
    (within : ∀ move ∈ moves, move.Within n) : CarriesOut n moves m := by
  induction moves generalizing m with
  | nil => trivial
  | cons move rest ih =>
    obtain ⟨m', t', run, h', consistent', effect⟩ :=
      Move.run_eq ⟨objects, rfl⟩ consistent (within move List.mem_cons_self)
    obtain rfl := h'.links_eq
    exact ⟨m', run, consistent', effect, ih h'.toHoldsObjects consistent'
      fun other mem => within other (List.mem_cons_of_mem _ mem)⟩

/-- A story with two objects, the second one inside the first. -/
def smallTree : Machine :=
  let image : Memory := Memory.putBytes (Array.replicate 160 0) 0x0A [0, 0x40, 0, 0, 0, 0xA0]
  let image := (image.put (0x40 + 62 + 6) 2).put (0x40 + 62 + 9 + 4) 1
  start { image, header := Header.ofMemory image }

theorem eq_of_among_two (ho : Among 2 o) : o = 1 ∨ o = 2 := by
  have positive := toNat_ne_zero ho.1
  have bound := ho.2
  rcases Nat.lt_or_ge o.toNat 2 with small | large
  · exact Or.inl (UInt16.toNat_inj.mp (show o.toNat = 1 by omega))
  · exact Or.inr (UInt16.toNat_inj.mp (show o.toNat = 2 by omega))

theorem smallTree_consistent : smallTree.links.Consistent 2 where
  bounded l o ho := by
    rcases eq_of_among_two ho with rfl | rfl <;> cases l <;> decide +kernel
  listed p hp := by
    rcases eq_of_among_two hp with rfl | rfl
    · refine ⟨[2], by decide +kernel, by decide, fun o => ⟨fun mem => ?_, fun member => ?_⟩⟩
      · obtain rfl := List.mem_singleton.mp mem
        decide +kernel
      · rcases eq_of_among_two member.1 with rfl | rfl
        · exact absurd member.2 (by decide +kernel)
        · exact List.mem_singleton_self 2
    · refine ⟨[], by decide +kernel, by decide, fun o => ⟨fun mem => ?_, fun member => ?_⟩⟩
      · cases mem
      · rcases eq_of_among_two member.1 with rfl | rfl
        · exact absurd member.2 (by decide +kernel)
        · exact absurd member.2 (by decide +kernel)

/-- The first object goes into the second, which is inside it, then the second into itself, then
the first one comes out. -/
theorem smallTree_carriesOut :
    CarriesOut 2 [.insert 1 2, .insert 2 2, .remove 1] smallTree :=
  carriesOut_of_consistent ⟨by decide, by decide +kernel, by decide +kernel⟩ smallTree_consistent
    (by
      intro move mem
      simp only [List.mem_cons, List.not_mem_nil, or_false] at mem
      rcases mem with rfl | rfl | rfl <;> exact ⟨by decide, by decide⟩)

end Machine

end ZMachine
