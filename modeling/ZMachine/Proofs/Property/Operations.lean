import Mathlib.Data.List.Chain
import ZMachine.Proofs.Machine.Objects
import ZMachine.Proofs.ObjectTree.Links
import ZMachine.Proofs.Property.Listing

/-!
# Operations on properties

The operations come to a property in different ways: by its number, from the property before it, or
backwards from its data. If the properties of an object are a list in memory (`HasProperties`), all
of them say what the list says (`ReadsAs`), and a value that is put into one property is found there
and nowhere else (`PutInto`). The whole is `agree_of_hasProperties`.
-/

namespace ZMachine

namespace Property

/-- What is read of a property: its only byte, or its first word. -/
def valueIn (p : Property) (memory : Memory) : UInt16 :=
  if p.length = 1 then .ofNat (memory.byte p.address).toNat else memory.word p.address

/-- What is left of a value that is put into a property. -/
def kept (p : Property) (value : UInt16) : UInt16 :=
  if p.length = 1 then .ofNat (value.toNat % 256) else value

def numbers (ps : List Property) : List UInt16 :=
  ps.map fun p => .ofNat p.number

/-- The number of the first property of a list; 0 if there is none. -/
def firstNumber : List Property → UInt16
  | [] => 0
  | p :: _ => .ofNat p.number

end Property

namespace Machine

/-- Where the size byte of the first property of an object is, if the object has an entry. -/
def propertiesOf (object : UInt16) (m : Machine) : Nat :=
  let table := (m.memory.word (m.entryOf object + 7)).toNat
  table + 1 + (m.memory.byte table).toNat * 2

/-- The properties of an object are in memory, in descending order and apart from its entry and from
the default properties. -/
structure HasProperties (object : UInt16) (ps : List Property) (m : Machine) : Prop where
  object_ne : object ≠ 0
  object_le : object.toNat ≤ objectLimit
  entry_le : m.entryOf object + entrySize ≤ m.memory.size
  lists : m.memory.Lists (m.propertiesOf object) ps
  descending : ps.Pairwise fun p q => q.number < p.number
  low : Memory.listEnd (m.propertiesOf object) ps < 0xFFFF
  defaults_apart : Memory.listEnd (m.propertiesOf object) ps < m.story.header.objectTable.toNat ∨
    m.story.header.objectTable.toNat + propertyLimit * 2 ≤ m.propertiesOf object
  entry_apart : Memory.listEnd (m.propertiesOf object) ps < m.entryOf object ∨
    m.entryOf object + entrySize ≤ m.propertiesOf object

/-- The reading operations say what the list says. -/
structure ReadsAs (object : UInt16) (ps : List Property) (m : Machine) : Prop where
  /-- From 0 on, each number leads to the next one, and the last one to 0. -/
  walk : List.IsChain (fun number next => m.nextProperty object number = .ok next)
    (0 :: Property.numbers ps ++ [0])
  listed : ∀ p ∈ ps, ∃ address, m.propertyAddress object (.ofNat p.number) = .ok address ∧
    address.toNat = p.address ∧ (m.propertyLength address).map UInt16.toNat = .ok p.length ∧
    m.getProperty object (.ofNat p.number) = .ok (p.valueIn m.memory)
  unlisted : ∀ number : UInt16, 0 < number.toNat → number.toNat ≤ propertyLimit →
    (∀ p ∈ ps, p.number ≠ number.toNat) →
    m.propertyAddress object number = .ok 0 ∧
    m.getProperty object number =
      .ok (m.memory.word (m.story.header.objectTable.toNat + (number.toNat - 1) * 2)) ∧
    m.nextProperty object number = .error (.invalidProperty object number) ∧
    ∀ value, putProperty object number value m = .error (.invalidProperty object number) m

/-- The machines differ in nothing but the bytes of memory from one address up to another. -/
structure DiffersWithin (first last : Nat) (m m' : Machine) : Prop where
  rest_eq : m' = { m with memory := m'.memory }
  size_eq : m'.memory.size = m.memory.size
  same : ∀ a, a < first ∨ last ≤ a → m'.memory.byte a = m.memory.byte a

/-- A value has been put into a property of the list. -/
structure PutInto (object : UInt16) (ps : List Property) (p : Property) (value : UInt16)
    (m m' : Machine) : Prop where
  has : HasProperties object ps m'
  get : m'.getProperty object (.ofNat p.number) = .ok (p.kept value)
  others : ∀ number : UInt16, number ≠ .ofNat p.number →
    m'.getProperty object number = m.getProperty object number
  within : DiffersWithin p.address p.next m m'

variable {object number value : UInt16} {m m' : Machine} {p : Property}
  {ps front rest : List Property} {address : Nat}

/-! ### Looking up -/

theorem HasProperties.number_eq (has : HasProperties object ps m) (mem : p ∈ ps) :
    (UInt16.ofNat p.number).toNat = p.number := by
  have bound := (has.lists.standsAt mem).number_le
  rw [propertyLimit] at bound
  rw [UInt16.toNat_ofNat']
  omega

theorem HasProperties.number_ne (has : HasProperties object ps m) (mem : p ∈ ps) :
    UInt16.ofNat p.number ≠ 0 := by
  have positive := (has.lists.standsAt mem).number_pos
  intro zero
  rw [← has.number_eq mem, zero] at positive
  exact absurd positive (by decide)

theorem HasProperties.objectAddress_eq (has : HasProperties object ps m) :
    m.objectAddress object = .ok (m.entryOf object) := by
  have positive := toNat_ne_zero has.object_ne
  have bound := has.object_le
  have inside := has.entry_le
  rw [entryOf] at inside
  rw [Machine.objectAddress_eq]
  exact if_neg (by omega)

theorem HasProperties.entryOf_lt (has : HasProperties object ps m) :
    m.entryOf object < 0x20000 :=
  (objectAddress_bounds has.objectAddress_eq).2

theorem HasProperties.firstProperty_eq (has : HasProperties object ps m) :
    m.firstProperty object = .ok (m.propertiesOf object) := by
  have addressable : m.entryOf object + 7 + 1 < addressLimit := by
    have low := has.entryOf_lt
    rw [addressLimit]
    omega
  rw [firstProperty, except_bind_of_ok has.objectAddress_eq, propertyTable, wordAt,
    if_pos addressable]
  rfl

theorem HasProperties.findProperty_eq (has : HasProperties object ps m) :
    m.findProperty object number = .ok (ps.find? fun p => p.number = number.toNat) := by
  have near : Memory.listEnd (m.propertiesOf object) ps < UInt64.size :=
    Nat.lt_trans has.low (by decide)
  rw [findProperty, except_bind_of_ok has.firstProperty_eq]
  exact findPropertyFrom_of_lists has.lists has.descending near

theorem HasProperties.findProperty_of_mem (has : HasProperties object ps m) (mem : p ∈ ps) :
    m.findProperty object (.ofNat p.number) = .ok (some p) := by
  rw [has.findProperty_eq, has.number_eq mem, find?_number_of_mem mem has.descending]

theorem HasProperties.findProperty_of_notMem (has : HasProperties object ps m)
    (absent : ∀ p ∈ ps, p.number ≠ number.toNat) : m.findProperty object number = .ok none := by
  rw [has.findProperty_eq, List.find?_eq_none.mpr]
  intro p mem
  simpa using absent p mem

/-! ### Reading -/

theorem nextProperty_of_behind (ne : object ≠ 0)
    (behind : m.behindProperty object number = .ok address)
    (lists : m.memory.Lists address rest) :
    m.nextProperty object number = .ok (Property.firstNumber rest) := by
  rw [nextProperty, if_neg ne, except_bind_of_ok behind, propertyAt_of_lists lists]
  cases rest <;> rfl

theorem HasProperties.behindProperty_of_mem (has : HasProperties object ps m) (mem : p ∈ ps) :
    m.behindProperty object (.ofNat p.number) = .ok p.next := by
  rw [behindProperty, if_neg (has.number_ne mem), except_bind_of_ok (has.findProperty_of_mem mem)]
  rfl

/-- The walk goes on through the rest of the list from any property that leads there. -/
theorem HasProperties.walk_from (has : HasProperties object (front ++ rest) m)
    (next : m.nextProperty object number = .ok (Property.firstNumber rest)) :
    List.IsChain (fun number next => m.nextProperty object number = .ok next)
      (number :: Property.numbers rest ++ [0]) := by
  induction rest generalizing front number with
  | nil => exact .cons_cons next (.singleton 0)
  | cons p rest ih =>
    have mem : p ∈ front ++ p :: rest := List.mem_append_right _ List.mem_cons_self
    have onward : m.nextProperty object (.ofNat p.number) = .ok (Property.firstNumber rest) :=
      nextProperty_of_behind has.object_ne (has.behindProperty_of_mem mem) has.lists.behind
    rw [List.append_cons] at has
    exact .cons_cons next (ih has onward)

theorem HasProperties.address_bounds (has : HasProperties object ps m) (mem : p ∈ ps) :
    0 < p.address ∧ p.next < 0xFFFF := by
  obtain ⟨above, below⟩ := has.lists.within mem
  exact ⟨by omega, Nat.lt_of_le_of_lt below has.low⟩

theorem HasProperties.getProperty_of_mem (has : HasProperties object ps m) (mem : p ∈ ps) :
    m.getProperty object (.ofNat p.number) = .ok (p.valueIn m.memory) := by
  rw [getProperty, if_neg has.object_ne, except_bind_of_ok (has.findProperty_of_mem mem)]
  dsimp only
  by_cases single : p.length = 1
  · rw [if_pos single, Property.valueIn, if_pos single]
    rfl
  · have addressable : p.address + 1 < addressLimit := by
      have low := (has.address_bounds mem).2
      rw [Property.next] at low
      rw [addressLimit]
      omega
    rw [if_neg single, Property.valueIn, if_neg single, wordAt, if_pos addressable]

theorem defaultProperty_of_le (positive : 0 < number.toNat) (bound : number.toNat ≤ propertyLimit) :
    m.defaultProperty number.toNat =
      .ok (m.memory.word (m.story.header.objectTable.toNat + (number.toNat - 1) * 2)) := by
  have table := m.story.header.objectTable.toNat_lt
  rw [propertyLimit] at bound
  rw [defaultProperty_eq, propertyLimit, if_neg (by omega), wordAt, addressLimit,
    if_pos (by omega)]

theorem HasProperties.getProperty_of_notMem (has : HasProperties object ps m)
    (absent : ∀ p ∈ ps, p.number ≠ number.toNat) :
    m.getProperty object number = m.defaultProperty number.toNat := by
  rw [getProperty, if_neg has.object_ne, except_bind_of_ok (has.findProperty_of_notMem absent)]

/-- The length that is read backwards from the data is the one of the property. -/
theorem HasProperties.propertyLength_eq (has : HasProperties object ps m) (mem : p ∈ ps) :
    (m.propertyLength (.ofNat p.address)).map UInt16.toNat = .ok p.length := by
  obtain ⟨positive, low⟩ := has.address_bounds mem
  rw [Property.next] at low
  have exact_address : (UInt16.ofNat p.address).toNat = p.address := by
    rw [UInt16.toNat_ofNat']
    omega
  have nonzero : UInt16.ofNat p.address ≠ 0 := by
    intro zero
    rw [zero] at exact_address
    rw [← exact_address] at positive
    exact absurd positive (by decide)
  obtain ⟨-, numbered, number_le, some, short, size_eq⟩ := has.lists.standsAt mem
  rw [propertyLimit] at number_le
  rw [Machine.propertyLength_eq, if_neg nonzero, exact_address, lengthOfSizeByte, size_eq, Except.map,
    UInt16.toNat_ofNat']
  congr 1
  omega

theorem HasProperties.readsAs (has : HasProperties object ps m) : ReadsAs object ps m where
  walk := by
    have first : m.behindProperty object 0 = .ok (m.propertiesOf object) := has.firstProperty_eq
    have whole : HasProperties object ([] ++ ps) m := has
    exact whole.walk_from (nextProperty_of_behind has.object_ne first has.lists)
  listed p mem := by
    obtain ⟨-, low⟩ := has.address_bounds mem
    rw [Property.next] at low
    refine ⟨.ofNat p.address, ?_, ?_, has.propertyLength_eq mem, has.getProperty_of_mem mem⟩
    · rw [propertyAddress, if_neg has.object_ne, except_bind_of_ok (has.findProperty_of_mem mem)]
      rfl
    · rw [UInt16.toNat_ofNat']
      omega
  unlisted number positive bound absent := by
    have missing := has.findProperty_of_notMem absent
    have nonzero : number ≠ 0 := by
      intro zero
      rw [zero] at positive
      exact absurd positive (by decide)
    refine ⟨?_, ?_, ?_, fun value => ?_⟩
    · rw [propertyAddress, if_neg has.object_ne, except_bind_of_ok missing]
      rfl
    · rw [has.getProperty_of_notMem absent, defaultProperty_of_le positive bound]
    · rw [nextProperty, if_neg has.object_ne, behindProperty, if_neg nonzero,
        except_bind_of_ok missing]
      rfl
    · rw [putProperty, if_neg has.object_ne, bind_of_ok (query_of_ok missing)]
      rfl

/-! ### Writing -/

theorem DiffersWithin.story_eq {first last : Nat} (differs : DiffersWithin first last m m') :
    m'.story = m.story := by
  rw [differs.rest_eq]

theorem DiffersWithin.word_eq {first last : Nat} (differs : DiffersWithin first last m m')
    (outside : address + 1 < first ∨ last ≤ address) :
    m'.memory.word address = m.memory.word address := by
  rw [Memory.word, Memory.word, differs.same address (by omega),
    differs.same (address + 1) (by omega)]

theorem DiffersWithin.valueIn_eq {q : Property} (differs : DiffersWithin p.address p.next m m')
    (some : 0 < q.length) (apart : p.next < q.address ∨ q.next < p.address) :
    q.valueIn m'.memory = q.valueIn m.memory := by
  rw [Property.next] at apart differs
  rw [Property.next] at apart
  rw [Property.valueIn, Property.valueIn]
  split
  · rw [differs.same q.address (by omega)]
  · rw [differs.word_eq (by omega)]

/-- New data of a property leaves the list of its object as it is. -/
theorem HasProperties.of_differs (has : HasProperties object ps m) (mem : p ∈ ps)
    (differs : DiffersWithin p.address p.next m m') : HasProperties object ps m' := by
  obtain ⟨above, below⟩ := has.lists.within mem
  have entry : m'.entryOf object = m.entryOf object := by
    rw [entryOf, entryOf, differs.story_eq]
  have table : m'.memory.word (m.entryOf object + 7) = m.memory.word (m.entryOf object + 7) := by
    have apart := has.entry_apart
    rw [entrySize] at apart
    exact differs.word_eq (by omega)
  have start : m'.propertiesOf object = m.propertiesOf object := by
    rw [propertiesOf] at above
    rw [propertiesOf, propertiesOf, entry, table, differs.same _ (Or.inl (by omega))]
  obtain ⟨object_ne, object_le, entry_le, lists, descending, low, defaults_apart, entry_apart⟩ :=
    has
  refine ⟨object_ne, object_le, ?_, ?_, descending, ?_, ?_, ?_⟩
  · rw [entry, differs.size_eq]
    exact entry_le
  · rw [start]
    exact lists.of_data mem differs.size_eq differs.same
  · rw [start]
    exact low
  · rw [start, differs.story_eq]
    exact defaults_apart
  · rw [start, entry]
    exact entry_apart

theorem HasProperties.defaultProperty_eq_of_differs (has : HasProperties object ps m)
    (mem : p ∈ ps) (differs : DiffersWithin p.address p.next m m') {n : Nat} :
    m'.defaultProperty n = m.defaultProperty n := by
  rw [Machine.defaultProperty_eq, Machine.defaultProperty_eq, differs.story_eq]
  split
  · rfl
  · next inTable =>
    obtain ⟨above, below⟩ := has.lists.within mem
    have apart := has.defaults_apart
    rw [not_or, Nat.not_lt] at inTable
    rw [wordAt, wordAt, differs.word_eq (by omega)]

theorem HasProperties.getProperty_of_differs (has : HasProperties object ps m) (mem : p ∈ ps)
    (differs : DiffersWithin p.address p.next m m') (ne : number ≠ .ofNat p.number) :
    m'.getProperty object number = m.getProperty object number := by
  have has' := has.of_differs mem differs
  by_cases listed : ∃ q ∈ ps, q.number = number.toNat
  · obtain ⟨q, hq, number_eq⟩ := listed
    obtain rfl : UInt16.ofNat q.number = number := by
      rw [number_eq, UInt16.ofNat_toNat]
    have other : p ≠ q := by
      rintro rfl
      exact ne rfl
    have some := (has.lists.standsAt hq).length_pos
    rw [has.getProperty_of_mem hq, has'.getProperty_of_mem hq,
      differs.valueIn_eq some (has.lists.apart mem hq other)]
  · have absent : ∀ q ∈ ps, q.number ≠ number.toNat := fun q hq eq => listed ⟨q, hq, eq⟩
    rw [has.getProperty_of_notMem absent, has'.getProperty_of_notMem absent,
      has.defaultProperty_eq_of_differs mem differs]

theorem differsWithin_withByte {byte : UInt8} (from_le : p.address ≤ address)
    (inside : address < p.next) : DiffersWithin p.address p.next m (m.withByte address byte) where
  rest_eq := rfl
  size_eq := Memory.size_put ..
  same a outside := by
    rw [withByte, Memory.byte_put, if_neg (by omega)]

theorem DiffersWithin.trans {first last : Nat} {mid : Machine}
    (one : DiffersWithin first last m mid) (two : DiffersWithin first last mid m') :
    DiffersWithin first last m m' where
  rest_eq := by
    rw [two.rest_eq, one.rest_eq]
  size_eq := two.size_eq.trans one.size_eq
  same a outside := (two.same a outside).trans (one.same a outside)

/-- What the property is given has been written to its data, and there alone. -/
theorem HasProperties.written (has : HasProperties object ps m) (mem : p ∈ ps)
    (short : p.length ≤ 2) (dynamic : p.next ≤ m.dynamicSize) :
    ∃ m', putProperty object (.ofNat p.number) value m = .ok () m' ∧
      DiffersWithin p.address p.next m m' ∧ p.valueIn m'.memory = p.kept value := by
  have inside : p.next < m.memory.size :=
    Nat.lt_of_le_of_lt (has.lists.within mem).2 has.lists.end_lt_size
  have some := (has.lists.standsAt mem).length_pos
  have next_eq : p.next = p.address + p.length := rfl
  rw [putProperty, if_neg has.object_ne, bind_of_ok (query_of_ok (has.findProperty_of_mem mem))]
  dsimp only
  by_cases single : p.length = 1
  · refine ⟨m.withByte p.address (Word.low value), ?_, ?_, ?_⟩
    · rw [if_pos single]
      exact writeByte_of_lt (by omega) (by omega)
    · exact differsWithin_withByte (Nat.le_refl _) (by omega)
    · rw [Property.valueIn, if_pos single, Property.kept, if_pos single, withByte, Memory.byte_put,
        if_pos ⟨rfl, by omega⟩, Word.low, UInt8.toNat_ofNat']
  · have double : p.length = 2 := by omega
    have run : writeWord p.address value m =
        .ok () ((m.withByte p.address (Word.high value)).withByte (p.address + 1)
          (Word.low value)) := writeWord_of_lt (by omega) (by omega)
    refine ⟨(m.withByte p.address (Word.high value)).withByte (p.address + 1) (Word.low value),
      ?_, ?_, ?_⟩
    · rw [if_neg single, if_pos double]
      exact run
    · exact (differsWithin_withByte (Nat.le_refl _) (by omega)).trans
        (differsWithin_withByte (by omega) (by omega))
    · rw [Property.valueIn, if_neg single, Property.kept, if_neg single]
      exact (word_of_writeWord run).1

/-- The operations agree on the list: those that read say what it says, a property of one or two
bytes in dynamic memory takes a value, and a longer one is refused. -/
theorem agree_of_hasProperties (has : HasProperties object ps m) :
    ReadsAs object ps m ∧ ∀ p ∈ ps, ∀ value,
      (p.length ≤ 2 → p.next ≤ m.dynamicSize →
        ∃ m', putProperty object (.ofNat p.number) value m = .ok () m' ∧
          PutInto object ps p value m m') ∧
      (2 < p.length → putProperty object (.ofNat p.number) value m =
        .error (.invalidProperty object (.ofNat p.number)) m) := by
  refine ⟨has.readsAs, fun p mem value => ⟨fun short dynamic => ?_, fun long => ?_⟩⟩
  · obtain ⟨m', run, differs, taken⟩ := has.written mem short dynamic
    have has' := has.of_differs mem differs
    refine ⟨m', run, has', ?_, fun number ne => has.getProperty_of_differs mem differs ne, differs⟩
    rw [has'.getProperty_of_mem mem, taken]
  · rw [putProperty, if_neg has.object_ne, bind_of_ok (query_of_ok (has.findProperty_of_mem mem))]
    dsimp only
    rw [if_neg (by omega), if_neg (by omega)]
    rfl

/-- A story with one object, whose properties 20, 17 and 5 are three, two bytes and one byte long.
The size byte of property 5 could be data, and the data of property 17 a size byte. -/
def smallObject : Machine :=
  let image : Memory := Memory.putBytes (Array.replicate 160 0) 0x0A [0, 0x40, 0, 0, 0, 0xA0]
  let image := image.putBytes (0x40 + 62 + 7) [0, 0x90]
  let image := image.putBytes 0x91 [0x54, 1, 2, 3, 0x31, 0x31, 0, 0x05, 9, 0]
  start { image, header := Header.ofMemory image }

def smallProperties : List Property :=
  [⟨20, 0x92, 3⟩, ⟨17, 0x96, 2⟩, ⟨5, 0x99, 1⟩]

theorem smallObject_agree :
    HasProperties 1 smallProperties smallObject ∧ ReadsAs 1 smallProperties smallObject ∧
      ∀ p ∈ smallProperties, ∀ value,
        (p.length ≤ 2 → p.next ≤ smallObject.dynamicSize →
          ∃ m', putProperty 1 (.ofNat p.number) value smallObject = .ok () m' ∧
            PutInto 1 smallProperties p value smallObject m') ∧
        (2 < p.length → putProperty 1 (.ofNat p.number) value smallObject =
          .error (.invalidProperty 1 (.ofNat p.number)) smallObject) := by
  have has : HasProperties 1 smallProperties smallObject :=
    { object_ne := by decide
      object_le := by decide
      entry_le := by decide +kernel
      lists := by decide +kernel
      descending := by decide
      low := by decide +kernel
      defaults_apart := by decide +kernel
      entry_apart := by decide +kernel }
  exact ⟨has, agree_of_hasProperties has⟩

end Machine

end ZMachine
