import ZMachine.Machine.Property
import ZMachine.Machine.Variable
import ZMachine.Proofs.Operation

/-!
# Tables are read within bounds

What the machine's checks of its tables come to: the number of an object, a property or a global has
been looked at before it is counted from the first one, the entry of an object has its attributes, and
the objects in a chain are counted no further than there can be. Each operation is the one without
those checks.
-/

namespace ZMachine.Machine

variable {object index next current : UInt16} {m : Machine}

theorem objectAddress_eq (object : UInt16) (m : Machine) :
    m.objectAddress object =
      let n := object.toNat
      let address := m.story.header.objectTable.toNat + propertyLimit * 2 + (n - 1) * entrySize
      if n = 0 ∨ objectLimit < n ∨ m.memory.size < address + entrySize then
        .error (.invalidObject object)
      else .ok address := by
  rw [objectAddress]
  dsimp only
  by_cases unknown : object.toNat = 0 ∨ objectLimit < object.toNat
  · rw [if_pos unknown, if_pos (by omega)]
  · rw [if_neg unknown, except_bind_of_ok (subtract_of_le (by omega))]
    by_cases outside : m.memory.size < m.story.header.objectTable.toNat + propertyLimit * 2 +
        (object.toNat - 1) * entrySize + entrySize
    · rw [if_pos outside, if_pos (.inr (.inr outside))]
      rfl
    · rw [if_neg outside, if_neg (by omega)]
      rfl

theorem le_size_of_objectAddress {address : Nat} (h : m.objectAddress object = .ok address) :
    address + entrySize ≤ m.memory.size := by
  rw [objectAddress_eq] at h
  dsimp only at h
  split at h
  · cases h
  · next inside =>
    cases h
    omega

/-- The attributes of an object are found with its entry. -/
theorem attributes_of_objectAddress {address i : Nat} (h : m.objectAddress object = .ok address)
    (known : i < 4) :
    ∃ bytes, m.attributes address = .ok bytes ∧
      present bytes[i]? = m.inspect (address + i) := by
  have inside := le_size_of_objectAddress h
  simp only [entrySize] at inside
  refine ⟨_, Memory.bytesIn_of_le (Nat.le_add_right _ _) (by omega), ?_⟩
  rw [inspect, if_pos (by omega), Nat.add_sub_cancel_left,
    List.getElem?_eq_getElem (by rw [Memory.length_bytes]; exact known)]
  simp [Memory.bytes]

theorem hasAttribute_eq (object index : UInt16) (m : Machine) :
    m.hasAttribute object index =
      if object = 0 ∨ attributeCount ≤ index.toNat then pure false
      else m.objectAddress object >>= fun address =>
        m.inspect (address + index.toNat / 8) >>= fun bits =>
          pure (bits &&& attributeMask index.toNat != 0) := by
  rw [hasAttribute]
  split
  · rfl
  · next known =>
    cases found : m.objectAddress object with
    | error e => rfl
    | ok address =>
      simp only [attributeCount] at known
      obtain ⟨bytes, read, same⟩ := attributes_of_objectAddress found
        (i := index.toNat / 8) (by omega)
      rw [except_bind_of_ok rfl, except_bind_of_ok rfl, except_bind_of_ok read, same]

theorem setAttribute_eq (object index : UInt16) (value : Bool) :
    setAttribute object index value =
      if object = 0 ∨ attributeCount ≤ index.toNat then pure ()
      else query (objectAddress object) >>= fun address => get >>= fun m =>
        if m.dynamicSize < address + 4 then throw (.writeOutside address)
        else query (inspect (address + index.toNat / 8)) >>= fun old =>
          poke (address + index.toNat / 8)
            (if value then old ||| attributeMask index.toNat
              else old &&& ~~~attributeMask index.toNat) := by
  rw [setAttribute]
  split
  · rfl
  · next known =>
    funext m
    cases found : m.objectAddress object with
    | error e => rw [bind_of_error (query_of_error found), bind_of_error (query_of_error found)]
    | ok address =>
      simp only [attributeCount] at known
      obtain ⟨bytes, read, same⟩ := attributes_of_objectAddress found
        (i := index.toNat / 8) (by omega)
      rw [bind_of_ok (query_of_ok found), bind_of_ok (query_of_ok found), get_bind, get_bind]
      split
      · rfl
      · dsimp only
        rw [bind_of_ok (query_of_ok read)]
        have asked : query (fun _ => present bytes[index.toNat / 8]?) m =
            query (inspect (address + index.toNat / 8)) m := by
          rw [query, query, same]
        simp only [bind, EStateM.bind, asked]

/-! ### Chains -/

/-- Takes `object` out of the sibling chain from `current` on, in which `next` follows it. A chain
that does not hold it within `fuel` objects stays as it is. -/
def unlinkWithin (object next : UInt16) : Nat → UInt16 → MachineM Unit
  | 0, _ => pure ()
  | fuel + 1, current => do
    if current = 0 then pure ()
    else
      let sibling ← query (link .sibling current)
      if sibling = object then setLink .sibling current next
      else unlinkWithin object next fuel sibling

/-- Objects are counted in 16 bits, which suffices. -/
theorem unlinkFrom_eq_unlinkWithin (object next : UInt16) (steps : Nat) (current : UInt16) :
    unlinkFrom object next steps current =
      unlinkWithin object next (objectLimit + 1 - steps) current := by
  rw [unlinkFrom]
  by_cases many : objectLimit < steps
  · rw [if_pos (.inr many), Nat.sub_eq_zero_of_le many, unlinkWithin]
  · have fuel : objectLimit + 1 - steps = objectLimit + 1 - (steps + 1) + 1 := by omega
    rw [fuel, unlinkWithin]
    by_cases none : current = 0
    · rw [if_pos (.inl none), if_pos none]
    · rw [if_neg (by simp [none, many]), if_neg none]
      congr 1
      funext sibling
      split
      · rfl
      · have counted : sized 16 (steps + 1) = .ok (steps + 1) := by
          simp only [objectLimit] at many
          exact if_pos (by omega)
        rw [← unlinkFrom_eq_unlinkWithin object next (steps + 1) sibling]
        funext m
        exact bind_of_ok (query_of_ok counted)
termination_by objectLimit + 1 - steps

/-! ### Properties and globals -/

theorem defaultProperty_eq (number : Nat) (m : Machine) :
    m.defaultProperty number =
      if number = 0 ∨ propertyLimit < number then .ok 0
      else m.wordAt (m.story.header.objectTable.toNat + (number - 1) * 2) := by
  rw [defaultProperty]
  split
  · rfl
  · exact except_bind_of_ok (subtract_of_le (by omega))

theorem propertyLength_eq (address : UInt16) (m : Machine) :
    m.propertyLength address =
      .ok (if address = 0 then 0
        else .ofNat (lengthOfSizeByte (m.memory.byte (address.toNat - 1)))) := by
  rw [propertyLength]
  split
  · rfl
  · next ne =>
    have positive : address.toNat ≠ 0 := fun zero => ne (UInt16.toNat_inj.mp zero)
    exact except_bind_of_ok (subtract_of_le (by omega))

theorem readGlobal_eq (number : UInt8) (m : Machine) :
    m.readGlobal number =
      if number < 16 then .error (.undecodable m.pc (.notGlobal number.toNat))
      else m.wordAt (m.globalAddress number) := by
  rw [readGlobal]
  split
  · rfl
  · next isGlobal => exact except_bind_of_ok (subtract_of_le (UInt8.not_lt.mp isGlobal))

theorem writeGlobal_eq (number : UInt8) (value : UInt16) :
    writeGlobal number value =
      get >>= fun m =>
        if number < 16 then throw (.undecodable m.pc (.notGlobal number.toNat))
        else writeWord (m.globalAddress number) value := by
  rw [writeGlobal]
  congr 1
  funext m
  split
  · rfl
  · next isGlobal =>
    funext m'
    exact bind_of_ok (query_of_ok (subtract_of_le (UInt8.not_lt.mp isGlobal)))

end ZMachine.Machine
