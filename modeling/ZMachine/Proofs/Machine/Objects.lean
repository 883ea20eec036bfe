import ZMachine.Machine.Property
import ZMachine.Proofs.Machine.Bounds
import ZMachine.Proofs.Machine.Input

/-!
# Safety of objects and properties

The entry of an object lies in memory, or the object is refused. Property lists are followed as far
as memory goes, so that the data of a property that has been found begins in memory or just behind
it.
-/

namespace ZMachine.Machine

variable {story : Story} {m : Machine} {object index property value : UInt16} {l : Link}

theorem objectAddress_ne_fault : objectAddress object m ≠ .error .fault := by
  simp only [objectAddress_eq]
  split <;> exact nofun

theorem objectAddress_bounds {address : Nat} (h : objectAddress object m = .ok address) :
    address + entrySize ≤ m.memory.size ∧ address < 0x20000 := by
  have table := m.story.header.objectTable.toNat_lt
  simp only [objectAddress_eq] at h
  split at h
  · cases h
  · next inside =>
    cases h
    simp only [objectLimit, propertyLimit, entrySize] at inside ⊢
    omega

theorem link_ne_fault : link l object m ≠ .error .fault := by
  rw [link]
  split
  · exact nofun
  · exact bind_ne_error objectAddress_ne_fault fun address _ => nofun

theorem inspect_ne_fault {address : Nat} (inside : address < m.memory.size) :
    m.inspect address ≠ .error .fault := by
  rw [inspect, if_pos inside]
  intro eq
  cases eq

theorem hasAttribute_ne_fault : hasAttribute object index m ≠ .error .fault := by
  rw [hasAttribute_eq]
  split
  · exact nofun
  · next known =>
    refine bind_ne_error objectAddress_ne_fault fun address found => ?_
    obtain ⟨inside, -⟩ := objectAddress_bounds found
    refine bind_ne_error (inspect_ne_fault ?_) fun bits _ => nofun
    rw [not_or, Nat.not_le] at known
    simp only [attributeCount, entrySize] at known inside
    omega

theorem safe_setLink {target : UInt16} (hs : story.Sound) :
    Safe story (setLink l object target) := by
  rw [setLink]
  refine Keeps.ite (fun _ => Keeps.pure ()) fun _ => ?_
  refine Keeps.ite (fun _ => Keeps.throw nofun) fun _ => ?_
  refine Keeps.query_bind (fun m _ fault => absurd fault objectAddress_ne_fault) ?_
  intro m address h found
  obtain ⟨-, low⟩ := objectAddress_bounds found
  refine safe_writeByte hs (fun _ => ?_) m h
  simp only [addressLimit]
  cases l <;> simp only [Link.offset] <;> omega

theorem safe_setAttribute {set : Bool} (hs : story.Sound) :
    Safe story (setAttribute object index set) := by
  rw [setAttribute_eq]
  refine Keeps.ite (fun _ => Keeps.pure ()) fun known => ?_
  refine Keeps.query_bind (fun m _ fault => absurd fault objectAddress_ne_fault) ?_
  intro m address h _
  refine Keeps.get_bind (fun m h => ?_) m h
  split
  · exact ⟨h, nofun⟩
  · next dynamic =>
    rw [not_or, Nat.not_le] at known
    simp only [attributeCount] at known
    have small : index.toNat / 8 < 4 := by omega
    have inside : address + index.toNat / 8 < m.dynamicSize := by omega
    have present := Nat.lt_of_lt_of_le inside (h.dynamic_le hs)
    simp only [inspect, query, if_pos present, bind, EStateM.bind]
    rw [poke_of_lt present]
    exact h.withByte (h.dynamicSize_eq ▸ inside)

theorem safe_unlinkFrom {next current : UInt16} {steps : Nat} (hs : story.Sound) :
    Safe story (unlinkFrom object next steps current) := by
  rw [unlinkFrom_eq_unlinkWithin]
  generalize objectLimit + 1 - steps = fuel
  induction fuel generalizing current with
  | zero => exact Keeps.pure ()
  | succ fuel ih =>
    rw [unlinkWithin]
    refine Keeps.ite (fun _ => Keeps.pure ()) fun _ => ?_
    refine Keeps.bind (Keeps.query fun m _ fault => absurd fault link_ne_fault) fun sibling => ?_
    exact Keeps.ite (fun _ => safe_setLink hs) fun _ => ih

theorem safe_readLink : Safe story (query (link l object)) :=
  Keeps.query fun _ _ fault => absurd fault link_ne_fault

theorem safe_removeObject (hs : story.Sound) : Safe story (removeObject object) := by
  rw [removeObject]
  refine Keeps.ite (fun _ => Keeps.pure ()) fun _ => ?_
  refine Keeps.bind safe_readLink fun parent => ?_
  refine Keeps.ite (fun _ => Keeps.pure ()) fun _ => ?_
  refine Keeps.bind safe_readLink fun next => ?_
  refine Keeps.bind safe_readLink fun first => ?_
  have released : Safe story (do setLink .parent object 0; setLink .sibling object 0) :=
    Keeps.bind (safe_setLink hs) fun _ => safe_setLink hs
  refine Keeps.ite (fun _ => ?_) fun _ => ?_
  · exact Keeps.bind (safe_setLink hs) fun _ => released
  · exact Keeps.bind (safe_unlinkFrom hs) fun _ => released

theorem safe_insertObject {destination : UInt16} (hs : story.Sound) :
    Safe story (insertObject object destination) := by
  rw [insertObject]
  refine Keeps.ite (fun _ => Keeps.pure ()) fun _ => ?_
  refine Keeps.bind (safe_removeObject hs) fun _ => ?_
  refine Keeps.ite (fun _ => Keeps.pure ()) fun _ => ?_
  refine Keeps.bind safe_readLink fun first => ?_
  refine Keeps.bind (safe_setLink hs) fun _ => ?_
  exact Keeps.bind (safe_setLink hs) fun _ => safe_setLink hs

/-! ### Properties -/

theorem propertyTable_ne_fault {entry : Nat} (low : entry < 0x20000) :
    m.propertyTable entry ≠ .error .fault := by
  refine bind_ne_error (wordAt_ne_fault ?_) fun table _ => nofun
  simp only [addressLimit]
  omega

theorem objectName_ne_fault : m.objectName object ≠ .error .fault := by
  rw [objectName]
  split
  · exact nofun
  · refine bind_ne_error objectAddress_ne_fault fun entry found => ?_
    refine bind_ne_error (propertyTable_ne_fault (objectAddress_bounds found).2) fun table _ => ?_
    split
    · exact nofun
    · exact bind_ne_error ZString.decode_ne_fault fun _ _ => nofun

theorem firstProperty_ne_fault : m.firstProperty object ≠ .error .fault := by
  refine bind_ne_error objectAddress_ne_fault fun entry found => ?_
  exact bind_ne_error (propertyTable_ne_fault (objectAddress_bounds found).2) fun table _ => nofun

theorem length_of_propertyAt {address : Nat} {p : Property} (h : m.propertyAt address = some p) :
    p.length ≤ 8 := by
  simp only [propertyAt] at h
  split at h
  · cases h
  · cases h
    have size := (m.memory.byte address).toNat_lt
    simp only [lengthOfSizeByte]
    omega

/-- The data of a property that has been found begins behind a byte of memory. -/
theorem findPropertyFrom_bound {number address : Nat} {p : Property}
    (h : m.findPropertyFrom number address = .ok (some p)) : p.address ≤ m.memory.size := by
  fun_induction findPropertyFrom m number address with
  | case1 => cases h
  | case2 address q found =>
    cases h
    rw [address_of_propertyAt found]
    exact lt_size_of_propertyAt found
  | case3 => cases h
  | case4 => cases h
  | case5 address q found _ _ _ ih => exact ih h

theorem findPropertyFrom_ne_fault {number address : Nat} (small : m.memory.size < imageLimit) :
    m.findPropertyFrom number address ≠ .error .fault := by
  fun_induction findPropertyFrom m number address with
  | case1 => exact nofun
  | case2 => exact nofun
  | case3 => exact nofun
  | case4 address q found _ _ far =>
    have inside := lt_size_of_propertyAt found
    have length := length_of_propertyAt found
    rw [address_of_propertyAt found] at far
    simp only [imageLimit, UInt64.size] at small far
    omega
  | case5 address q found _ _ _ ih => exact ih

theorem findProperty_ne_fault (small : m.memory.size < imageLimit) :
    m.findProperty object property ≠ .error .fault :=
  bind_ne_error firstProperty_ne_fault fun _ _ => findPropertyFrom_ne_fault small

theorem findProperty_bound {p : Property} (h : m.findProperty object property = .ok (some p)) :
    p.address ≤ m.memory.size := by
  obtain ⟨first, -, h⟩ := except_bind_eq_ok.mp h
  exact findPropertyFrom_bound h

theorem defaultProperty_ne_fault {number : Nat} : m.defaultProperty number ≠ .error .fault := by
  have table := m.story.header.objectTable.toNat_lt
  rw [defaultProperty_eq]
  split
  · exact nofun
  · next known =>
    refine wordAt_ne_fault ?_
    simp only [propertyLimit, addressLimit] at known ⊢
    omega

theorem getProperty_ne_fault (small : m.memory.size < imageLimit) :
    m.getProperty object property ≠ .error .fault := by
  rw [getProperty]
  split
  · exact nofun
  · refine bind_ne_error (findProperty_ne_fault small) fun found eq => ?_
    cases found with
    | none => exact defaultProperty_ne_fault
    | some p =>
      have bound := findProperty_bound eq
      dsimp only
      split
      · exact nofun
      · refine wordAt_ne_fault ?_
        simp only [imageLimit, addressLimit] at small ⊢
        omega

theorem propertyAddress_ne_fault (small : m.memory.size < imageLimit) :
    m.propertyAddress object property ≠ .error .fault := by
  rw [propertyAddress]
  split
  · exact nofun
  · refine bind_ne_error (findProperty_ne_fault small) fun found eq => ?_
    cases found <;> exact nofun

theorem behindProperty_ne_fault (small : m.memory.size < imageLimit) :
    m.behindProperty object property ≠ .error .fault := by
  rw [behindProperty]
  split
  · exact firstProperty_ne_fault
  · refine bind_ne_error (findProperty_ne_fault small) fun found eq => ?_
    cases found <;> exact nofun

theorem nextProperty_ne_fault (small : m.memory.size < imageLimit) :
    m.nextProperty object property ≠ .error .fault := by
  rw [nextProperty]
  split
  · exact nofun
  · refine bind_ne_error (behindProperty_ne_fault small) fun address _ => ?_
    split <;> exact nofun

theorem Sound.size_lt (h : m.Sound story) (small : story.image.size < imageLimit) :
    m.memory.size < imageLimit := by
  rw [h.size_eq]
  exact small

theorem safe_putProperty (hs : story.Sound) : Safe story (putProperty object property value) := by
  rw [putProperty]
  refine Keeps.ite (fun _ => Keeps.pure ()) fun _ => ?_
  refine Keeps.query_bind (fun m h fault => Nat.le_of_not_lt fun small => ?_) fun m found h eq => ?_
  · exact findProperty_ne_fault (h.size_lt small) fault
  · cases found with
    | none => exact ⟨h, nofun⟩
    | some p =>
      have addressable : story.image.size < imageLimit → p.address + 1 < addressLimit := by
        intro small
        have bound := findProperty_bound eq
        have size := h.size_lt small
        simp only [imageLimit, addressLimit] at size ⊢
        omega
      refine Keeps.ite (fun _ => ?_) (fun _ => ?_) m h
      · exact safe_writeByte hs fun small => Nat.lt_of_succ_lt (addressable small)
      · exact Keeps.ite (fun _ => safe_writeWord hs addressable) fun _ => Keeps.throw nofun

end ZMachine.Machine
