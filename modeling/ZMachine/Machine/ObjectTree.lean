import ZMachine.Machine.Basic
import ZMachine.ZString.Decoding

/-!
# The object tree

The object table begins with the default properties, 31 words; behind them each object from 1 on
has an entry of nine bytes: four of attributes, one each for parent, sibling and child, and the
address of its property table. Object 0 is no object: it has no links and no attributes, and changes
to it are ignored.
-/

namespace ZMachine

inductive Link where
  | parent
  | sibling
  | child
  deriving DecidableEq, Repr

/-- Where a link lies in the entry of its object. -/
def Link.offset : Link → Nat
  | parent => 4
  | sibling => 5
  | child => 6

namespace Machine

def objectLimit : Nat := 255

def entrySize : Nat := 9

def attributeCount : Nat := 32

/-- Words of default properties, which are also the property numbers. -/
def propertyLimit : Nat := 31

def objectAddress (object : UInt16) (m : Machine) : Except MachineError Nat :=
  let n := object.toNat
  if n = 0 ∨ objectLimit < n then .error (.invalidObject object)
  else do
    let before ← subtract n 1
    let address := m.story.header.objectTable.toNat + propertyLimit * 2 + before * entrySize
    if m.memory.size < address + entrySize then throw (.invalidObject object) else pure address

def link (l : Link) (object : UInt16) (m : Machine) : Except MachineError UInt16 := do
  if object = 0 then pure 0
  else
    let address ← m.objectAddress object
    pure (.ofNat (m.memory.byte (address + l.offset)).toNat)

def setLink (l : Link) (object target : UInt16) : MachineM Unit := do
  if object = 0 then pure ()
  else if objectLimit < target.toNat then throw (.invalidObject target)
  else
    let address ← query (objectAddress object)
    writeByte (address + l.offset) (.ofNat target.toNat)

/-- The bit of an attribute in its byte; the first attribute of a byte is its highest bit. -/
def attributeMask (index : Nat) : UInt8 :=
  .ofNat (1 <<< (7 - index % 8))

/-- The bytes of attributes in the entry at an address. -/
def attributes (entry : Nat) (m : Machine) : Except MachineError (List UInt8) :=
  m.memory.bytesIn entry (entry + 4)

def hasAttribute (object index : UInt16) (m : Machine) : Except MachineError Bool := do
  if object = 0 ∨ attributeCount ≤ index.toNat then pure false
  else
    let address ← m.objectAddress object
    let bytes ← m.attributes address
    let bits ← present bytes[index.toNat / 8]?
    pure (bits &&& attributeMask index.toNat != 0)

def setAttribute (object index : UInt16) (value : Bool) : MachineM Unit := do
  if object = 0 ∨ attributeCount ≤ index.toNat then pure ()
  else
    let address ← query (objectAddress object)
    let m ← get
    if m.dynamicSize < address + 4 then throw (.writeOutside address)
    else
      let mask := attributeMask index.toNat
      let bytes ← query (attributes address)
      let old ← query fun _ => present bytes[index.toNat / 8]?
      poke (address + index.toNat / 8) (if value then old ||| mask else old &&& ~~~mask)

/-- The property table of the object whose entry is at an address. -/
def propertyTable (entry : Nat) (m : Machine) : Except MachineError Nat := do
  let table ← m.wordAt (entry + 7)
  pure table.toNat

def objectName (object : UInt16) (m : Machine) : Except MachineError (List Char) := do
  if object = 0 then pure []
  else
    let entry ← m.objectAddress object
    let table ← m.propertyTable entry
    if m.memory.byte table = 0 then pure []
    else
      let (name, _) ← ZString.decode m.memory (table + 1) m.story.header.abbreviations.toNat
      pure name

/-- Takes `object` out of the sibling chain from `current` on, in which `next` follows it; `steps`
objects come before. A chain that does not hold it within as many as there can be stays as it is. -/
def unlinkFrom (object next : UInt16) (steps : Nat) (current : UInt16) : MachineM Unit :=
  if current = 0 ∨ objectLimit < steps then pure ()
  else do
    let sibling ← query (link .sibling current)
    if sibling = object then setLink .sibling current next
    else
      let _ ← query fun _ => sized 16 (steps + 1)
      unlinkFrom object next (steps + 1) sibling
termination_by objectLimit + 1 - steps

/-- Takes an object out of the children of its parent. -/
def removeObject (object : UInt16) : MachineM Unit := do
  if object = 0 then pure ()
  else
    let parent ← query (link .parent object)
    if parent = 0 then pure ()
    else
      let next ← query (link .sibling object)
      let first ← query (link .child parent)
      if first = object then setLink .child parent next
      else unlinkFrom object next 0 first
      setLink .parent object 0
      setLink .sibling object 0

/-- Makes an object the first child of another; object 0 as destination only takes it out. -/
def insertObject (object destination : UInt16) : MachineM Unit := do
  if object = 0 then pure ()
  else
    removeObject object
    if destination = 0 then pure ()
    else
      let first ← query (link .child destination)
      setLink .sibling object first
      setLink .parent object destination
      setLink .child destination object

end Machine

end ZMachine
