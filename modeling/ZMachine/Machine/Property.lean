import ZMachine.Machine.ObjectTree

/-!
# Properties

The property table of an object begins with its short name; behind it the properties follow in
descending order of their numbers. Each has a size byte, which holds its number and its length, and
then its data. A size byte of zero ends the list.
-/

namespace ZMachine

structure Property where
  number : Nat
  address : Nat
  /-- Bytes of data, from 1 to 8. -/
  length : Nat
  deriving DecidableEq, Repr

namespace Machine

/-- The size byte of an object's first property. -/
def firstProperty (object : UInt16) (m : Machine) : Except MachineError Nat := do
  let entry ← m.objectAddress object
  let table ← m.propertyTable entry
  pure (table + 1 + (m.memory.byte table).toNat * 2)

def lengthOfSizeByte (size : UInt8) : Nat :=
  size.toNat / 32 + 1

/-- The property whose size byte is at an address, unless the list ends there. -/
def propertyAt (m : Machine) (address : Nat) : Option Property :=
  let size := m.memory.byte address
  if size = 0 then none
  else some { number := size.toNat % 32, address := address + 1, length := lengthOfSizeByte size }

theorem lt_size_of_propertyAt {m : Machine} {address : Nat} {p : Property}
    (h : m.propertyAt address = some p) : address < m.memory.size := by
  rcases Nat.lt_or_ge address m.memory.size with hlt | hge
  · exact hlt
  · simp [propertyAt, Memory.byte_of_size_le _ hge] at h

theorem address_of_propertyAt {m : Machine} {address : Nat} {p : Property}
    (h : m.propertyAt address = some p) : p.address = address + 1 := by
  simp only [propertyAt] at h
  split at h
  · cases h
  · cases h; rfl

/-- Looks for a property from the size byte at an address on. The list is descending, so the search
ends at the first smaller number. Places in memory have 64 bits. -/
def findPropertyFrom (m : Machine) (number : Nat) (address : Nat) :
    Except MachineError (Option Property) :=
  match _h : m.propertyAt address with
  | none => .ok none
  | some p =>
    if p.number = number then .ok (some p)
    else if p.number < number then .ok none
    else if UInt64.size ≤ p.address + p.length then .error .fault
    else findPropertyFrom m number (p.address + p.length)
termination_by m.memory.size - address
decreasing_by
  have := lt_size_of_propertyAt _h
  have := address_of_propertyAt _h
  omega

theorem findPropertyFrom_eq (m : Machine) (number address : Nat) :
    m.findPropertyFrom number address =
      match m.propertyAt address with
      | none => .ok none
      | some p =>
        if p.number = number then .ok (some p)
        else if p.number < number then .ok none
        else if UInt64.size ≤ p.address + p.length then .error .fault
        else m.findPropertyFrom number (p.address + p.length) := by
  rw [findPropertyFrom]
  split
  · next eq => rw [eq]
  · next p eq => rw [eq]

def findProperty (object property : UInt16) (m : Machine) :
    Except MachineError (Option Property) := do
  let first ← m.firstProperty object
  m.findPropertyFrom property.toNat first

def defaultProperty (number : Nat) (m : Machine) : Except MachineError UInt16 :=
  if number = 0 ∨ propertyLimit < number then .ok 0
  else do
    let before ← subtract number 1
    m.wordAt (m.story.header.objectTable.toNat + before * 2)

/-- The value of a property: its byte if it has only one, else its first word. -/
def getProperty (object property : UInt16) (m : Machine) : Except MachineError UInt16 := do
  if object = 0 then pure 0
  else
    match ← m.findProperty object property with
    | none => m.defaultProperty property.toNat
    | some p =>
      if p.length = 1 then pure (.ofNat (m.memory.byte p.address).toNat)
      else m.wordAt p.address

/-- Where the data of a property begins; 0 if the object lacks it. -/
def propertyAddress (object property : UInt16) (m : Machine) : Except MachineError UInt16 := do
  if object = 0 then pure 0
  else
    match ← m.findProperty object property with
    | none => pure 0
    | some p => pure (.ofNat p.address)

/-- The length of the property whose data begins at an address; 0 for address 0. -/
def propertyLength (address : UInt16) (m : Machine) : Except MachineError UInt16 :=
  if address = 0 then .ok 0
  else do
    let sizeAddress ← subtract address.toNat 1
    pure (.ofNat (lengthOfSizeByte (m.memory.byte sizeAddress)))

/-- The size byte behind the given property, or the first one for property 0. -/
def behindProperty (object property : UInt16) (m : Machine) : Except MachineError Nat := do
  if property = 0 then m.firstProperty object
  else
    match ← m.findProperty object property with
    | none => throw (.invalidProperty object property)
    | some p => pure (p.address + p.length)

/-- The number of the property after the given one, or of the first one after 0; 0 at the end. -/
def nextProperty (object property : UInt16) (m : Machine) : Except MachineError UInt16 := do
  if object = 0 then pure 0
  else
    let address ← m.behindProperty object property
    match m.propertyAt address with
    | none => pure 0
    | some p => pure (.ofNat p.number)

def putProperty (object property value : UInt16) : MachineM Unit := do
  if object = 0 then pure ()
  else
    match ← query (findProperty object property) with
    | none => throw (.invalidProperty object property)
    | some p =>
      if p.length = 1 then writeByte p.address (Word.low value)
      else if p.length = 2 then writeWord p.address value
      else throw (.invalidProperty object property)

end Machine

end ZMachine
