import ZMachine.Word

/-!
# Story memory

Memory is an array of bytes from address zero. Reading past its end gives zero.
-/

namespace ZMachine

abbrev Memory := Array UInt8

namespace Memory

/-- The byte at an address; zero past the end. -/
def byte (memory : Memory) (address : Nat) : UInt8 :=
  memory.getD address 0

/-- The word at an address; bytes past the end are zero. -/
def word (memory : Memory) (address : Nat) : UInt16 :=
  Word.ofBytes (memory.byte address) (memory.byte (address + 1))

/-- As many bytes as asked for, from an address on. -/
def bytes (memory : Memory) (address count : Nat) : List UInt8 :=
  (List.range count).map fun i => memory.byte (address + i)

/-- The memory with one byte replaced; past the end nothing changes. -/
def put (memory : Memory) (address : Nat) (value : UInt8) : Memory :=
  memory.setIfInBounds address value

/-- The memory with a stretch of bytes replaced, as far as it lies inside. -/
def putBytes (memory : Memory) (address : Nat) : List UInt8 → Memory
  | [] => memory
  | b :: rest => (memory.put address b).putBytes (address + 1) rest

@[simp] theorem size_put (memory : Memory) (address : Nat) (value : UInt8) :
    (memory.put address value).size = memory.size := by
  simp [put]

@[simp] theorem size_putBytes (memory : Memory) (address : Nat) (values : List UInt8) :
    (memory.putBytes address values).size = memory.size := by
  induction values generalizing memory address with
  | nil => rfl
  | cons b rest ih => simp [putBytes, ih]

theorem byte_put (memory : Memory) (address other : Nat) (value : UInt8) :
    (memory.put address value).byte other =
      if address = other ∧ address < memory.size then value else memory.byte other := by
  simp only [byte, put, Array.getD_eq_getD_getElem?, Array.getElem?_setIfInBounds]
  by_cases h : address = other
  · subst h
    by_cases inside : address < memory.size
    · simp [inside]
    · simp [inside]
  · simp [h]

/-- Writing a stretch of bytes changes nothing outside it. -/
theorem byte_putBytes_of_outside (memory : Memory) (address other : Nat) (values : List UInt8)
    (outside : other < address ∨ address + values.length ≤ other) :
    (memory.putBytes address values).byte other = memory.byte other := by
  induction values generalizing memory address with
  | nil => rfl
  | cons b rest ih =>
    simp only [List.length_cons] at outside
    rw [putBytes, ih _ _ (by omega), byte_put, if_neg (by omega)]

/-- A stretch of bytes that lies in memory reads back. -/
theorem byte_putBytes_inside (memory : Memory) (address index : Nat) (values : List UInt8)
    (fits : address + values.length ≤ memory.size) (bound : index < values.length) :
    (memory.putBytes address values).byte (address + index) = values[index] := by
  induction values generalizing memory address index with
  | nil => cases bound
  | cons b rest ih =>
    simp only [List.length_cons] at fits bound
    cases index with
    | zero =>
      rw [putBytes, byte_putBytes_of_outside _ _ _ _ (Or.inl (by omega)), byte_put,
        if_pos ⟨rfl, by omega⟩, List.getElem_cons_zero]
    | succ index =>
      rw [putBytes, show address + (index + 1) = address + 1 + index by omega,
        ih _ _ _ (by rw [size_put]; omega) (by omega), List.getElem_cons_succ]

theorem byte_of_size_le (memory : Memory) {address : Nat} (h : memory.size ≤ address) :
    memory.byte address = 0 := by
  simp [byte, Array.getD_eq_getD_getElem?, Array.getElem?_eq_none h]

@[simp] theorem length_bytes (memory : Memory) (address count : Nat) :
    (memory.bytes address count).length = count := by
  simp [bytes]

theorem byte_toArray_bytes {memory : Memory} {address count i : Nat} (inside : i < count) :
    Memory.byte (memory.bytes address count).toArray i = memory.byte (address + i) := by
  rw [byte, ← Array.getElem_eq_getD (h := by simpa using inside)]
  simp [bytes]

end Memory

end ZMachine
