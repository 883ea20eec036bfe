import ZMachine.Proofs.Machine.Objects
import ZMachine.Proofs.ObjectTree.Moves

/-!
# Fields of objects

The entry of an object has a bit for each attribute, from the highest bit of its first byte on, and
a byte for each link. A field can be read off its byte (`ObjectField.ofByte`), and setting it makes
another byte of it in which the bits of other fields are as they were (`ObjectField.intoByte`). As
the bytes of different entries are different ones, the fields of all objects are independent
(`independent_of_write`).
-/

namespace ZMachine

/-- A field in the entry of an object. -/
inductive ObjectField where
  | flag (index : Fin 32)
  | link (l : Link)
  deriving DecidableEq, Repr

namespace ObjectField

open Machine

/-- An object has an attribute or not; a link leads to an object. -/
abbrev Value : ObjectField → Type
  | flag _ => Bool
  | link _ => UInt16

def read : (field : ObjectField) → UInt16 → Machine → Except MachineError field.Value
  | flag index, object, m => hasAttribute object (.ofNat index.val) m
  | link l, object, m => Machine.link l object m

def write : (field : ObjectField) → UInt16 → field.Value → MachineM Unit
  | flag index, object, value => setAttribute object (.ofNat index.val) value
  | link l, object, value => setLink l object value

/-- Which byte of the entry the field lies in. -/
def offset : ObjectField → Nat
  | flag index => index.val / 8
  | link l => l.offset

/-- The bits of that byte which belong to the field. -/
def mask : ObjectField → UInt8
  | flag index => attributeMask index.val
  | link _ => 0xFF

/-- As many bytes of the entry have to lie in dynamic memory for the field to be set. -/
def extent : ObjectField → Nat
  | flag _ => 4
  | link l => l.offset + 1

/-- Every object number fits in a link. -/
def Fits : (field : ObjectField) → field.Value → Prop
  | flag _, _ => True
  | link _, target => target.toNat ≤ objectLimit

/-- What a field is worth, by its byte. -/
def ofByte : (field : ObjectField) → UInt8 → field.Value
  | flag index, b => b &&& attributeMask index.val != 0
  | link _, b => UInt16.ofNat b.toNat

/-- The byte of a field once it has been set. -/
def intoByte : (field : ObjectField) → field.Value → UInt8 → UInt8
  | flag index, value, b =>
    if value then b ||| attributeMask index.val else b &&& ~~~attributeMask index.val
  | link _, target, _ => .ofNat target.toNat

variable {field other : ObjectField} {o : UInt16}

/-! ### Bits of a byte -/

theorem toBitVec_attributeMask (index : Nat) :
    (attributeMask index).toBitVec = BitVec.twoPow 8 (7 - index % 8) := by
  apply BitVec.eq_of_toNat_eq
  rw [attributeMask, UInt8.toBitVec_ofNat', BitVec.toNat_ofNat, Nat.one_shiftLeft,
    BitVec.toNat_twoPow]

/-- The mask of an attribute has its bit alone, counted from the highest. -/
theorem getMsbD_attributeMask (index bit : Nat) :
    (attributeMask index).toBitVec.getMsbD bit = decide (bit = index % 8) := by
  have place : 8 - (7 - index % 8) - 1 = index % 8 := by omega
  rw [toBitVec_attributeMask, BitVec.getMsbD_twoPow, place,
    decide_eq_true (show 7 - index % 8 < 8 by omega), Bool.true_and]

/-- An attribute is set if its bit is. -/
theorem and_attributeMask_ne_zero (b : UInt8) (index : Nat) :
    (b &&& attributeMask index != 0) = b.toBitVec.getMsbD (index % 8) := by
  have bit : b.toBitVec.getMsbD (index % 8) = b.toBitVec.getLsbD (7 - index % 8) := by
    rw [BitVec.getMsbD_eq_getLsbD, decide_eq_true (Nat.mod_lt index (by decide)), Bool.true_and]
  have masked : (b &&& attributeMask index).toBitVec =
      if b.toBitVec.getLsbD (7 - index % 8) then BitVec.twoPow 8 (7 - index % 8) else 0#8 := by
    rw [UInt8.toBitVec_and, toBitVec_attributeMask, BitVec.and_twoPow]
  have power : BitVec.twoPow 8 (7 - index % 8) ≠ 0#8 := by
    intro zero
    have bits := congrArg (BitVec.getMsbD · (index % 8)) zero
    rw [← toBitVec_attributeMask, getMsbD_attributeMask] at bits
    simp at bits
  rw [Bool.eq_iff_iff, bne_iff_ne, ne_eq, ← UInt8.toBitVec_inj, masked, bit]
  cases b.toBitVec.getLsbD (7 - index % 8)
  · exact iff_of_false (fun differs => differs rfl) nofun
  · exact iff_of_true power rfl

/-- Setting an attribute sets its bit and no other. -/
theorem getMsbD_intoByte (index : Fin 32) (value : Bool) (b : UInt8) {bit : Nat} (bound : bit < 8) :
    (intoByte (.flag index) value b).toBitVec.getMsbD bit =
      if bit = index.val % 8 then value else b.toBitVec.getMsbD bit := by
  rw [intoByte]
  cases value
  · rw [if_neg Bool.false_ne_true, UInt8.toBitVec_and, UInt8.toBitVec_not, BitVec.getMsbD_and,
      BitVec.getMsbD_not, getMsbD_attributeMask, decide_eq_true bound]
    split <;> simp [*]
  · rw [if_pos rfl, UInt8.toBitVec_or, BitVec.getMsbD_or, getMsbD_attributeMask]
    split <;> simp [*]

/-! ### Fields of a byte -/

/-- Setting a field shows in the field. -/
theorem ofByte_intoByte {value : field.Value} (fits : field.Fits value) (b : UInt8) :
    field.ofByte (field.intoByte value b) = value := by
  cases field with
  | flag index =>
    rw [ofByte, and_attributeMask_ne_zero, getMsbD_intoByte _ _ _ (Nat.mod_lt _ (by decide)),
      if_pos rfl]
  | link l =>
    have target : value.toNat ≤ objectLimit := fits
    apply UInt16.toNat_inj.mp
    simp only [objectLimit] at target
    simp only [ofByte, intoByte, UInt8.toNat_ofNat', UInt16.toNat_ofNat']
    omega

/-- Setting a field does not show in another one in the same byte: both are attributes. -/
theorem ofByte_intoByte_of_ne (ne : other ≠ field) (same : other.offset = field.offset)
    (value : field.Value) (b : UInt8) :
    other.ofByte (field.intoByte value b) = other.ofByte b := by
  cases field with
  | flag index =>
    cases other with
    | flag index' =>
      have different : index'.val % 8 ≠ index.val % 8 := by
        intro bit
        refine ne (congrArg flag (Fin.ext ?_))
        simp only [offset] at same
        omega
      rw [ofByte, ofByte, and_attributeMask_ne_zero, and_attributeMask_ne_zero,
        getMsbD_intoByte _ _ _ (Nat.mod_lt _ (by decide)), if_neg different]
    | link l =>
      have first := index.isLt
      cases l <;> simp only [offset, Link.offset] at same <;> omega
  | link l =>
    cases other with
    | flag index =>
      have first := index.isLt
      cases l <;> simp only [offset, Link.offset] at same <;> omega
    | link l' =>
      refine absurd (congrArg link ?_) ne
      cases l <;> cases l' <;> first | rfl | cases same

/-- Setting a field leaves the bits of others alone. -/
theorem intoByte_and_mask (field : ObjectField) (value : field.Value) (b : UInt8) :
    field.intoByte value b &&& ~~~field.mask = b &&& ~~~field.mask := by
  cases field with
  | flag index =>
    rw [← UInt8.toBitVec_inj, mask]
    apply BitVec.eq_of_getMsbD_eq
    intro bit bound
    rw [UInt8.toBitVec_and, UInt8.toBitVec_and, UInt8.toBitVec_not, BitVec.getMsbD_and,
      BitVec.getMsbD_and, BitVec.getMsbD_not, getMsbD_attributeMask, getMsbD_intoByte _ _ _ bound]
    split <;> simp [*]
  | link l =>
    have none : ~~~(0xFF : UInt8) = 0 := by decide
    rw [mask, none, UInt8.and_zero, UInt8.and_zero]

/-! ### Fields in memory -/

theorem toNat_index (index : Fin 32) : (UInt16.ofNat index.val).toNat = index.val := by
  have bound := index.isLt
  rw [UInt16.toNat_ofNat']
  omega

theorem known_index (ne : o ≠ 0) (index : Fin 32) :
    ¬ (o = 0 ∨ attributeCount ≤ (UInt16.ofNat index.val).toNat) := by
  rw [toNat_index]
  exact not_or.mpr ⟨ne, Nat.not_le.mpr index.isLt⟩

theorem read_zero (field : ObjectField) (m m' : Machine) : field.read 0 m' = field.read 0 m := by
  cases field <;> rfl

/-- A field is read off its byte if the object has an entry. -/
theorem read_eq (ne : o ≠ 0) (field : ObjectField) (m : Machine) :
    field.read o m =
      (objectAddress o m).map fun entry => field.ofByte (m.memory.byte (entry + field.offset)) := by
  cases field with
  | flag index =>
    rw [read, hasAttribute_eq, if_neg (known_index ne index), toNat_index]
    cases found : objectAddress o m with
    | error e => rfl
    | ok entry =>
      obtain ⟨inside, -⟩ := objectAddress_bounds found
      have bound := index.isLt
      have bits : m.inspect (entry + index.val / 8) =
          .ok (m.memory.byte (entry + index.val / 8)) := by
        rw [inspect, if_pos]
        simp only [entrySize] at inside
        omega
      rw [except_bind_of_ok rfl, except_bind_of_ok bits]
      rfl
  | link l =>
    simp only [read, Machine.link, if_neg ne]
    rfl

theorem offset_lt (field : ObjectField) : field.offset < entrySize := by
  cases field with
  | flag index =>
    have bound := index.isLt
    simp only [offset, entrySize]
    omega
  | link l => cases l <;> decide

/-- The value fits, and the field lies in dynamic memory. -/
def Writable (field : ObjectField) (object : UInt16) (value : field.Value) (m : Machine) : Prop :=
  field.Fits value ∧ m.entryOf object + field.extent ≤ m.dynamicSize

/-- The machine in which the field of an object has been set. -/
def written (field : ObjectField) (object : UInt16) (value : field.Value) (m : Machine) : Machine :=
  let address := m.entryOf object + field.offset
  m.withByte address (field.intoByte value (m.memory.byte address))

end ObjectField

namespace Machine

/-- The object has a number that objects have, and its entry lies in memory. -/
def Present (m : Machine) (object : UInt16) : Prop :=
  object ≠ 0 ∧ object.toNat ≤ objectLimit ∧ m.entryOf object + entrySize ≤ m.memory.size

/-- Every field of an object with an entry lies in memory. -/
theorem Present.inside {m : Machine} {object : UInt16} (present : m.Present object)
    (field : ObjectField) : m.entryOf object + field.offset < m.memory.size :=
  Nat.lt_of_lt_of_le (Nat.add_lt_add_left field.offset_lt _) present.2.2

theorem objectAddress_of_present {m : Machine} {object : UInt16} (present : m.Present object) :
    objectAddress object m = .ok (m.entryOf object) := by
  obtain ⟨ne, limit, inside⟩ := present
  have positive := toNat_ne_zero ne
  simp only [objectAddress_eq, entryOf] at inside ⊢
  rw [if_neg]
  omega

theorem objectAddress_of_not_present {m : Machine} {object : UInt16} (ne : object ≠ 0)
    (absent : ¬ m.Present object) :
    objectAddress object m = .error (.invalidObject object) := by
  have outside : objectLimit < object.toNat ∨ m.memory.size < m.entryOf object + entrySize := by
    by_contra inside
    rw [not_or, Nat.not_lt, Nat.not_lt] at inside
    exact absent ⟨ne, inside⟩
  simp only [objectAddress_eq]
  exact if_pos (Or.inr outside)

end Machine

namespace ObjectField

open Machine

variable {m m' : Machine} {field other : ObjectField} {object o : UInt16} {value : field.Value}
  {e : MachineError}

/-- A field that can be set is set. -/
theorem write_of_writable (present : m.Present object) (writable : field.Writable object value m) :
    field.write object value m = .ok () (field.written object value m) := by
  obtain ⟨fits, dynamic⟩ := writable
  have found := query_of_ok (objectAddress_of_present present)
  have inside := present.inside field
  cases field with
  | flag index =>
    have notStatic : ¬ m.dynamicSize < m.entryOf object + 4 := Nat.not_lt.mpr dynamic
    rw [write, setAttribute_eq, if_neg (known_index present.1 index), bind_of_ok found, get_bind,
      toNat_index, if_neg notStatic]
    have bits : m.inspect (m.entryOf object + index.val / 8) =
        .ok (m.memory.byte (m.entryOf object + index.val / 8)) := if_pos inside
    exact (bind_of_ok (query_of_ok bits)).trans (poke_of_lt inside)
  | link l =>
    have narrow : ¬ objectLimit < value.toNat := Nat.not_lt.mpr fits
    rw [write, setLink, if_neg present.1, if_neg narrow, bind_of_ok found]
    exact writeByte_of_lt dynamic inside

/-- A field that cannot be set is refused, and the machine stays as it is. -/
theorem write_of_not_writable (ne : object ≠ 0)
    (refused : ¬ (m.Present object ∧ field.Writable object value m)) :
    ∃ e, field.write object value m = .error e m := by
  by_cases present : m.Present object
  · have found := query_of_ok (objectAddress_of_present present)
    have refused : ¬ field.Writable object value m := fun writable => refused ⟨present, writable⟩
    cases field with
    | flag index =>
      have static : m.dynamicSize < m.entryOf object + 4 :=
        Nat.lt_of_not_le fun dynamic => refused ⟨trivial, dynamic⟩
      rw [write, setAttribute_eq, if_neg (known_index ne index), bind_of_ok found, get_bind,
        if_pos static]
      exact ⟨_, rfl⟩
    | link l =>
      rw [write, setLink, if_neg ne]
      by_cases fits : value.toNat ≤ objectLimit
      · have static : m.dynamicSize ≤ m.entryOf object + l.offset :=
          Nat.le_of_not_lt fun dynamic => refused ⟨fits, dynamic⟩
        have addressable : m.entryOf object + l.offset < addressLimit := by
          have low := (objectAddress_bounds (objectAddress_of_present present)).2
          have bound := offset_lt (.link l)
          simp only [offset, entrySize] at bound
          simp only [addressLimit]
          omega
        rw [if_neg (Nat.not_lt.mpr fits), bind_of_ok found]
        exact ⟨_, writeByte_of_le static addressable⟩
      · rw [if_pos (Nat.lt_of_not_le fits)]
        exact ⟨_, rfl⟩
  · have missing : query (objectAddress object) m = .error (.invalidObject object) m :=
      query_of_error (objectAddress_of_not_present ne present)
    cases field with
    | flag index =>
      rw [write, setAttribute, if_neg (known_index ne index)]
      exact ⟨_, bind_of_error missing⟩
    | link l =>
      rw [write, setLink, if_neg ne]
      split
      · exact ⟨_, rfl⟩
      · exact ⟨_, bind_of_error missing⟩

theorem write_zero (field : ObjectField) (value : field.Value) (m : Machine) :
    field.write 0 value m = .ok () m := by
  cases field <;> rfl

/-- Whatever has been set could be set. -/
theorem eq_of_write (ne : object ≠ 0) (h : field.write object value m = .ok () m') :
    m.Present object ∧ field.Writable object value m ∧ m' = field.written object value m := by
  by_cases settable : m.Present object ∧ field.Writable object value m
  · obtain ⟨present, writable⟩ := settable
    rw [write_of_writable present writable] at h
    cases h
    exact ⟨present, writable, rfl⟩
  · obtain ⟨e, refused⟩ := write_of_not_writable ne settable
    rw [refused] at h
    cases h

theorem eq_of_write_error (h : field.write object value m = .error e m') : m' = m := by
  by_cases zero : object = 0
  · subst zero
    rw [write_zero] at h
    cases h
  · by_cases settable : m.Present object ∧ field.Writable object value m
    · rw [write_of_writable settable.1 settable.2] at h
      cases h
    · obtain ⟨d, refused⟩ := write_of_not_writable zero settable
      rw [refused] at h
      cases h
      rfl

/-! ### Fields of all objects -/

theorem objectAddress_written : objectAddress o (field.written object value m) =
    objectAddress o m := by
  simp only [objectAddress_eq, written, withByte, Memory.size_put]

/-- Different objects have no byte in common. -/
theorem eq_of_address_eq (ho : o ≠ 0) (hx : object ≠ 0)
    (same : m.entryOf o + other.offset = m.entryOf object + field.offset) :
    o = object ∧ other.offset = field.offset := by
  have positive := toNat_ne_zero ho
  have positive' := toNat_ne_zero hx
  have bound := field.offset_lt
  have bound' := other.offset_lt
  simp only [entryOf, entrySize] at same bound bound'
  have objects : o.toNat = object.toNat := by omega
  refine ⟨UInt16.toNat_inj.mp objects, ?_⟩
  rw [objects] at same
  omega

theorem read_written (present : m.Present object) (fits : field.Fits value) :
    field.read object (field.written object value m) = .ok value := by
  have inside := present.inside field
  rw [read_eq present.1, objectAddress_written, objectAddress_of_present present]
  show Except.ok (field.ofByte ((m.memory.put _ _).byte _)) = _
  rw [Memory.byte_put, if_pos ⟨rfl, inside⟩, ofByte_intoByte fits]

/-- Other fields, and fields of other objects, are what they were, also those without an entry. -/
theorem read_written_of_ne (present : m.Present object) (ne : ¬ (other = field ∧ o = object)) :
    other.read o (field.written object value m) = other.read o m := by
  by_cases zero : o = 0
  · subst zero
    exact other.read_zero _ _
  · rw [read_eq zero, read_eq zero, objectAddress_written]
    cases found : objectAddress o m with
    | error e => rfl
    | ok entry =>
      obtain rfl := objectAddress_eq_entryOf found
      simp only [Except.map, written, withByte, Memory.byte_put]
      split
      · next hit =>
        obtain ⟨rfl, same⟩ := eq_of_address_eq zero present.1 hit.1.symm
        have different : other ≠ field := fun eq => ne ⟨eq, rfl⟩
        rw [ofByte_intoByte_of_ne different same, same]
      · rfl

/-- The fields of objects are independent. A field of an object with an entry can be set just if the
value fits and the field lies in dynamic memory. It then reads as that value, all other fields read
as before, and nothing of the machine has changed but the bits of the field in its byte. A field
that is not set leaves everything as it was, and so do changes to object 0 and to attributes that do
not exist, which are no errors. -/
theorem independent_of_write (field : ObjectField) (object : UInt16) (value : field.Value)
    (m : Machine) :
    (m.Present object →
      ((∃ m', field.write object value m = .ok () m') ↔ field.Writable object value m) ∧
      ∀ m', field.write object value m = .ok () m' →
        field.read object m' = .ok value ∧
        (∀ (other : ObjectField) (o : UInt16), ¬ (other = field ∧ o = object) →
          other.read o m' = other.read o m) ∧
        ∃ b, m' = m.withByte (m.entryOf object + field.offset) b ∧
          b &&& ~~~field.mask =
            m.memory.byte (m.entryOf object + field.offset) &&& ~~~field.mask) ∧
    (∀ (other : ObjectField) (o : UInt16), m.Present o → ∃ old, other.read o m = .ok old) ∧
    (∀ e m', field.write object value m = .error e m' → m' = m) ∧
    field.write 0 value m = .ok () m ∧
    ∀ (index : UInt16) (set : Bool), attributeCount ≤ index.toNat →
      setAttribute object index set m = .ok () m := by
  refine ⟨fun present => ⟨⟨?_, ?_⟩, fun m' run => ?_⟩, fun other o present => ?_,
    fun e m' run => eq_of_write_error run, field.write_zero value m, fun index set unknown => ?_⟩
  · rintro ⟨m', run⟩
    exact (eq_of_write present.1 run).2.1
  · intro writable
    exact ⟨_, write_of_writable present writable⟩
  · obtain ⟨-, writable, rfl⟩ := eq_of_write present.1 run
    exact ⟨read_written present writable.1, fun other o ne => read_written_of_ne present ne,
      _, rfl, intoByte_and_mask field value _⟩
  · rw [read_eq present.1, objectAddress_of_present present]
    exact ⟨_, rfl⟩
  · rw [setAttribute, if_pos (Or.inr unknown)]
    rfl

/-- The first of the two objects gets an attribute; the second one stays inside it. -/
theorem independent_smallTree :
    ∃ m', smallTree.Present 1 ∧ smallTree.Present 2 ∧
      (flag 10).write 1 true smallTree = .ok () m' ∧ (flag 10).read 1 m' = .ok true ∧
      (flag 11).read 1 m' = .ok false ∧ (link .parent).read 2 m' = .ok 1 ∧
      setAttribute 1 40 true smallTree = .ok () smallTree := by
  have first : smallTree.Present 1 := ⟨by decide, by decide, by decide +kernel⟩
  have second : smallTree.Present 2 := ⟨by decide, by decide, by decide +kernel⟩
  obtain ⟨settable, -, -, -, unknown⟩ := independent_of_write (flag 10) 1 true smallTree
  obtain ⟨possible, set⟩ := settable first
  obtain ⟨m', run⟩ := possible.mpr ⟨trivial, by decide +kernel⟩
  obtain ⟨same, others, -⟩ := set m' run
  have beside : (flag 11).read 1 smallTree = .ok false := by decide +kernel
  have inside : (link .parent).read 2 smallTree = .ok 1 := by decide +kernel
  exact ⟨m', first, second, run, same, (others _ _ (by decide)).trans beside,
    (others _ _ (by decide)).trans inside, unknown 40 true (by decide)⟩

end ObjectField

end ZMachine
