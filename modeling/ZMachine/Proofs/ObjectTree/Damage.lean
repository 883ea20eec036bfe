import ZMachine.Proofs.ObjectTree.Fields

/-!
# Moves in a damaged tree

Links in memory may lead anywhere: in circles, to objects that do not exist, past the children that
an object is said to have. A move comes to an end all the same, and whether it succeeds or fails on
the way, it has written at most a handful of links (`Move.altered_of_run`): two of the object that
is moved, the child links of the object that it leaves and of the one it enters, and the sibling
link of one other object. If it succeeds, the object is where it was to go.
-/

namespace ZMachine.Machine

/-- Nothing of the machine has changed but, perhaps, the bytes of certain links. -/
structure Altered (places : Link → UInt16 → Prop) (m m' : Machine) : Prop where
  rest_eq : m' = { m with memory := m'.memory }
  size_eq : m'.memory.size = m.memory.size
  byte_eq : ∀ address,
    (∀ l o, o ≠ 0 → places l o → address ≠ m.entryOf o + l.offset) →
      m'.memory.byte address = m.memory.byte address

/-- No state is an excuse for a fault. -/
def Never (_ : Machine) : Prop :=
  False

variable {m m₀ m' : Machine} {l l' : Link} {object next first destination o x target : UInt16}
  {places : Link → UInt16 → Prop} {fuel : Nat}

theorem Altered.refl (m : Machine) : Altered places m m :=
  ⟨rfl, rfl, fun _ _ => rfl⟩

theorem Altered.entryOf_eq (h : Altered places m m') : m'.entryOf o = m.entryOf o := by
  rw [h.rest_eq]
  rfl

theorem Altered.withByte (h : Altered places m₀ m) (ne : o ≠ 0) (place : places l o)
    (value : UInt8) : Altered places m₀ (m.withByte (m.entryOf o + l.offset) value) where
  rest_eq := by
    rw [Machine.withByte, h.rest_eq]
  size_eq := by
    rw [Machine.withByte, Memory.size_put, h.size_eq]
  byte_eq address untouched := by
    have other := untouched l o ne place
    rw [Machine.withByte, Memory.byte_put, h.entryOf_eq, if_neg fun hit => other hit.1.symm]
    exact h.byte_eq address untouched

/-! ### Setting a link -/

theorem writeByte_ne_fault {address : Nat} {value : UInt8} (addressable : address < addressLimit)
    (inside : address < m.memory.size) : writeByte address value m ≠ .error .fault m' := by
  rw [writeByte, if_neg (Nat.not_le.mpr addressable), poke_of_lt inside]
  intro failed
  split at failed
  · cases failed
  · cases failed

theorem setLink_ne_fault : setLink l o target m ≠ .error .fault m' := by
  intro failed
  rw [setLink] at failed
  split at failed
  · cases failed
  · split at failed
    · cases failed
    · cases found : objectAddress o m with
      | error e =>
        rw [bind_of_error (query_of_error found)] at failed
        cases failed
        exact objectAddress_ne_fault found
      | ok address =>
        obtain ⟨inside, low⟩ := objectAddress_bounds found
        have offset := ObjectField.offset_lt (.link l)
        simp only [ObjectField.offset, entrySize] at offset inside
        have addressable : address + l.offset < addressLimit := by
          simp only [addressLimit]
          omega
        rw [bind_of_ok (query_of_ok found)] at failed
        exact writeByte_ne_fault addressable (by omega) failed

/-- A link that has been set leads to its target. -/
theorem link_of_setLink (ne : o ≠ 0) (h : setLink l o target m = .ok () m') :
    link l o m' = .ok target := by
  have write : (ObjectField.link l).write o target m = .ok () m' := h
  obtain ⟨present, ⟨fits, -⟩, rfl⟩ := ObjectField.eq_of_write ne write
  exact ObjectField.read_written present fits

/-- Other links lead where they led before. -/
theorem link_of_setLink_ne (other : ¬ (l' = l ∧ x = o)) (h : setLink l o target m = .ok () m') :
    link l' x m' = link l' x m := by
  have write : (ObjectField.link l).write o target m = .ok () m' := h
  by_cases zero : o = 0
  · subst zero
    rw [ObjectField.write_zero] at write
    cases write
    rfl
  · obtain ⟨present, -, rfl⟩ := ObjectField.eq_of_write zero write
    have different : ¬ (ObjectField.link l' = ObjectField.link l ∧ x = o) :=
      fun same => other ⟨ObjectField.link.inj same.1, same.2⟩
    exact ObjectField.read_written_of_ne present different

/-- Setting a link writes its byte or nothing. -/
theorem keeps_setLink (place : places l o) :
    Keeps (Altered places m₀) Never (setLink l o target) := by
  intro m altered
  cases run : setLink l o target m with
  | ok _ m' =>
    have write : (ObjectField.link l).write o target m = .ok () m' := run
    by_cases zero : o = 0
    · subst zero
      rw [ObjectField.write_zero] at write
      cases write
      exact altered
    · obtain ⟨-, -, rfl⟩ := ObjectField.eq_of_write zero write
      exact altered.withByte zero place _
  | error e m' =>
    have write : (ObjectField.link l).write o target m = .error e m' := run
    obtain rfl := ObjectField.eq_of_write_error write
    refine ⟨altered, ?_⟩
    rintro rfl
    exact setLink_ne_fault run

/-- What follows the reading of a link may use where the link leads. -/
theorem kept_readLink_bind {f : UInt16 → MachineM Unit} (altered : Altered places m₀ m)
    (h : ∀ x, m.links l o = x → Kept (Altered places m₀) Never (f x m)) :
    Kept (Altered places m₀) Never ((query (link l o) >>= f) m) := by
  cases read : link l o m with
  | error e =>
    rw [bind_of_error (query_of_error read)]
    refine ⟨altered, ?_⟩
    rintro rfl
    exact link_ne_fault read
  | ok x =>
    rw [bind_of_ok (query_of_ok read)]
    exact h x (by rw [links, read])

/-! ### Taking an object out -/

/-- However the siblings are linked, the walk along them only reads until it sets the one link that
leads to the object. -/
theorem unlinkWithin_cases (object next : UInt16) (fuel : Nat) (first : UInt16) (m : Machine) :
    (∃ other, m.links .sibling other = object ∧
      unlinkWithin object next fuel first m = setLink .sibling other next m) ∨
    unlinkWithin object next fuel first m = .ok () m ∨
    ∃ e ≠ .fault, unlinkWithin object next fuel first m = .error e m := by
  induction fuel generalizing first with
  | zero => exact Or.inr (Or.inl rfl)
  | succ fuel ih =>
    rw [unlinkWithin]
    split
    · exact Or.inr (Or.inl rfl)
    · cases read : link .sibling first m with
      | error e =>
        refine Or.inr (Or.inr ⟨e, ?_, bind_of_error (query_of_error read)⟩)
        rintro rfl
        exact link_ne_fault read
      | ok sibling =>
        rw [bind_of_ok (query_of_ok read)]
        split
        · next found =>
          refine Or.inl ⟨first, ?_, rfl⟩
          rw [links, read, found]
        · exact ih sibling

/-- The walk writes at most the sibling link of one object, one that leads to the object sought. -/
theorem kept_unlinkFrom (object next : UInt16) (steps : Nat) (first : UInt16) (m : Machine) :
    ∃ other, (other ≠ 0 → m.links .sibling other = object) ∧
      ∀ places m₀, places .sibling other → Altered places m₀ m →
        Kept (Altered places m₀) Never (unlinkFrom object next steps first m) := by
  rw [unlinkFrom_eq_unlinkWithin]
  rcases unlinkWithin_cases object next (objectLimit + 1 - steps) first m with
    ⟨other, leads, run⟩ | run | ⟨e, ordinary, run⟩
  · refine ⟨other, fun _ => leads, fun places m₀ place altered => ?_⟩
    rw [run]
    exact keeps_setLink place m altered
  · refine ⟨0, fun ne => absurd rfl ne, fun places m₀ _ altered => ?_⟩
    rw [run]
    exact altered
  · refine ⟨0, fun ne => absurd rfl ne, fun places m₀ _ altered => ?_⟩
    rw [run]
    exact ⟨altered, ordinary⟩

/-- An object that has lost parent and siblings. -/
theorem parent_of_release
    (h : (do setLink .parent o 0; setLink .sibling o 0 : MachineM Unit) m = .ok () m') :
    link .parent o m' = .ok 0 := by
  obtain ⟨⟨⟩, mid, parent, sibling⟩ := bind_eq_ok.mp h
  rw [link_of_setLink_ne (by simp) sibling]
  by_cases zero : o = 0
  · rw [link, if_pos zero]
    rfl
  · exact link_of_setLink zero parent

/-- Taking an object out of its parent writes two links of the object, the child link of the parent
and the sibling link of at most one other object, whatever the links are. -/
theorem kept_removeObject (object : UInt16) (m : Machine) :
    ∃ other, (other ≠ 0 → m.links .sibling other = object) ∧
      ∀ places : Link → UInt16 → Prop, places .parent object → places .sibling object →
        places .sibling other → places .child (m.links .parent object) →
        Kept (Altered places m) Never (removeObject object m) := by
  -- The siblings are walked through from the first child of the parent, if it comes to that.
  obtain ⟨other, leads, walk⟩ := kept_unlinkFrom object (m.links .sibling object) 0
    (m.links .child (m.links .parent object)) m
  refine ⟨other, leads, fun places ofParent ofSibling ofOther ofChild => ?_⟩
  have unchanged : Altered places m m := .refl m
  have released : Keeps (Altered places m) Never
      (do setLink .parent object 0; setLink .sibling object 0 : MachineM Unit) :=
    Keeps.bind (keeps_setLink ofParent) fun _ => keeps_setLink ofSibling
  rw [removeObject]
  split
  · exact unchanged
  · refine kept_readLink_bind unchanged fun parent parent_eq => ?_
    rw [parent_eq] at ofChild walk
    split
    · exact unchanged
    · refine kept_readLink_bind unchanged fun next sibling => ?_
      refine kept_readLink_bind unchanged fun first child => ?_
      split
      · exact Keeps.bind (keeps_setLink ofChild) (fun _ => released) m unchanged
      · rw [sibling, child] at walk
        exact Kept.bind (walk places m ofOther unchanged) fun _ mid _ => released mid

/-- An object that has been taken out has no parent. -/
theorem parent_of_removeObject (h : removeObject object m = .ok () m') :
    link .parent object m' = .ok 0 := by
  rw [removeObject] at h
  split at h
  · next zero =>
    rw [link, if_pos zero]
    rfl
  · obtain ⟨parent, m₁, read, taken⟩ := bind_eq_ok.mp h
    split at taken
    · next none =>
      cases taken
      obtain ⟨read, same⟩ := query_eq_ok.mp read
      rw [same, read, none]
    · obtain ⟨next, m₂, -, taken⟩ := bind_eq_ok.mp taken
      obtain ⟨first, m₃, -, taken⟩ := bind_eq_ok.mp taken
      -- In both cases the links of the object are the last to be set.
      split at taken
      · obtain ⟨⟨⟩, m₄, -, taken⟩ := bind_eq_ok.mp taken
        exact parent_of_release taken
      · obtain ⟨⟨⟩, m₄, -, taken⟩ := bind_eq_ok.mp taken
        exact parent_of_release taken

/-! ### Moves -/

/-- An object that has been put into another one has it as its parent, and is its first child. -/
theorem links_of_insertObject (ho : object ≠ 0) (hd : destination ≠ 0)
    (h : insertObject object destination m = .ok () m') :
    link .parent object m' = .ok destination ∧ link .child destination m' = .ok object := by
  rw [insertObject, if_neg ho] at h
  obtain ⟨⟨⟩, m₁, -, h⟩ := bind_eq_ok.mp h
  rw [if_neg hd] at h
  obtain ⟨first, m₂, -, h⟩ := bind_eq_ok.mp h
  obtain ⟨⟨⟩, m₃, -, h⟩ := bind_eq_ok.mp h
  obtain ⟨⟨⟩, m₄, parent, child⟩ := bind_eq_ok.mp h
  refine ⟨?_, link_of_setLink hd child⟩
  rw [link_of_setLink_ne (by simp) child]
  exact link_of_setLink ho parent

namespace Move

/-- The links that a move may write, if the object was in `parent` and `other` led to it. -/
def Touches (move : Move) (parent other : UInt16) : Link → UInt16 → Prop
  | .parent, o => o = move.object
  | .sibling, o => o = move.object ∨ o = other
  | .child, o => o = parent ∨ o = move.destination

theorem kept_run (move : Move) (m : Machine) :
    ∃ other, (other ≠ 0 → m.links .sibling other = move.object) ∧
      Kept (Altered (move.Touches (m.links .parent move.object) other) m) Never (move.run m) := by
  obtain ⟨other, leads, kept⟩ := kept_removeObject move.object m
  have out := kept (move.Touches (m.links .parent move.object) other) rfl (Or.inl rfl) (Or.inr rfl)
    (Or.inl rfl)
  refine ⟨other, leads, ?_⟩
  cases move with
  | remove o => exact out
  | insert o d =>
    rw [run, insertObject]
    split
    · exact Altered.refl m
    · refine Kept.bind out fun _ mid _ altered => ?_
      split
      · exact altered
      · refine kept_readLink_bind altered fun first _ => ?_
        refine Keeps.bind (keeps_setLink (Or.inl rfl)) (fun _ => ?_) mid altered
        exact Keeps.bind (keeps_setLink rfl) fun _ => keeps_setLink (Or.inr rfl)

/-- Whatever the links of a machine are, a move comes to an end, by success or by an ordinary error.
Nothing has changed then but, perhaps, the parent and sibling links of the object, the child links
of its old parent and of its destination, and the sibling link of one other object that led to it.
If the move has succeeded, the object has its destination as parent, and is its first child unless
it went out of the tree. -/
theorem altered_of_run (move : Move) (m : Machine) :
    ∃ m' other,
      (move.run m = .ok () m' ∨ ∃ e ≠ .fault, move.run m = .error e m') ∧
      Altered (move.Touches (m.links .parent move.object) other) m m' ∧
      (other ≠ 0 → m.links .sibling other = move.object) ∧
      (move.run m = .ok () m' →
        (move.destination = 0 → link .parent move.object m' = .ok 0) ∧
        (move.object ≠ 0 → move.destination ≠ 0 →
          link .parent move.object m' = .ok move.destination ∧
          link .child move.destination m' = .ok move.object)) := by
  obtain ⟨other, leads, kept⟩ := move.kept_run m
  cases ended : move.run m with
  | error e m' =>
    rw [ended] at kept
    exact ⟨m', other, Or.inr ⟨e, kept.2, rfl⟩, kept.1, leads, nofun⟩
  | ok _ m' =>
    refine ⟨m', other, Or.inl rfl, kept.state_of_ok ended, leads, fun _ => ⟨?_, ?_⟩⟩
    · intro out
      cases move with
      | remove o => exact parent_of_removeObject ended
      | insert o d =>
        obtain rfl : d = 0 := out
        rw [run, insertObject] at ended
        split at ended
        · next zero =>
          rw [object, link, if_pos zero]
          rfl
        · obtain ⟨⟨⟩, mid, removed, ended⟩ := bind_eq_ok.mp ended
          cases ended
          exact parent_of_removeObject removed
    · intro ho hd
      cases move with
      | remove o => exact absurd rfl hd
      | insert o d => exact links_of_insertObject ho hd ended

end Move

/-- Three objects. The first one is its own child, and the second one names it as its parent but is
in no list of children. -/
def damagedTree : Machine :=
  let image : Memory := Memory.putBytes (Array.replicate 160 0) 0x0A [0, 0x40, 0, 0, 0, 0xA0]
  let image := (image.put (0x40 + 62 + 6) 1).put (0x40 + 62 + 9 + 4) 1
  start { image, header := Header.ofMemory image }

/-- The second object goes into the third, although its parent does not have it. -/
theorem altered_damagedTree :
    ∃ m' other, (Move.insert 2 3).run damagedTree = .ok () m' ∧
      link .parent 2 damagedTree = .ok 1 ∧ link .child 1 damagedTree = .ok 1 ∧
      Altered ((Move.insert 2 3).Touches 1 other) damagedTree m' ∧
      link .parent 2 m' = .ok 3 ∧ link .child 3 m' = .ok 2 := by
  obtain ⟨m', other, ended, altered, -, moved⟩ := Move.altered_of_run (.insert 2 3) damagedTree
  have parent : damagedTree.links .parent 2 = 1 := by decide +kernel
  rw [Move.object, parent] at altered
  rcases ended with ended | ⟨e, -, failed⟩
  · obtain ⟨inside, first⟩ := (moved ended).2 (by decide) (by decide)
    exact ⟨m', other, ended, by decide +kernel, by decide +kernel, altered, inside, first⟩
  · have succeeds : (Move.insert 2 3).run.run' damagedTree = some () := by decide +kernel
    delta EStateM.run' EStateM.run at succeeds
    rw [failed] at succeeds
    cases succeeds

end ZMachine.Machine
