import ZMachine.Memory

/-!
# Bytes that stand in memory

`memory.Holds address bytes` says that a stretch of bytes stands at an address and ends within
memory. What is stored piece by piece is held piece by piece (`holds_cons`, `holds_append`), so a
reader that takes one piece after the other can be followed along the list of bytes.
-/

namespace ZMachine.Memory

variable {memory other : Memory} {address : Nat}

/-- The bytes stand in memory from the address on. -/
def Holds (memory : Memory) (address : Nat) (bytes : List UInt8) : Prop :=
  address + bytes.length ≤ memory.size ∧ memory.bytes address bytes.length = bytes

instance (bytes : List UInt8) : Decidable (memory.Holds address bytes) :=
  inferInstanceAs (Decidable (_ ∧ _))

theorem bytes_succ (memory : Memory) (address count : Nat) :
    memory.bytes address (count + 1) =
      memory.byte address :: memory.bytes (address + 1) count := by
  simp [bytes, List.range_succ_eq_map, Function.comp_def, Nat.add_comm, Nat.add_left_comm]

theorem holds_nil : memory.Holds address [] ↔ address ≤ memory.size := by
  simp [Holds, bytes]

theorem holds_cons {b : UInt8} {rest : List UInt8} :
    memory.Holds address (b :: rest) ↔
      address < memory.size ∧ memory.byte address = b ∧ memory.Holds (address + 1) rest := by
  simp only [Holds, List.length_cons, bytes_succ, List.cons.injEq]
  constructor
  · rintro ⟨le, rfl, eq⟩
    exact ⟨by omega, rfl, by omega, eq⟩
  · rintro ⟨-, rfl, le, eq⟩
    exact ⟨by omega, rfl, eq⟩

theorem holds_append {front back : List UInt8} :
    memory.Holds address (front ++ back) ↔
      memory.Holds address front ∧ memory.Holds (address + front.length) back := by
  induction front generalizing address with
  | nil =>
    simp only [List.nil_append, List.length_nil, Nat.add_zero, holds_nil]
    exact ⟨fun h => ⟨Nat.le_trans (Nat.le_add_right _ _) h.1, h⟩, And.right⟩
  | cons b rest ih =>
    simp only [List.cons_append, List.length_cons, holds_cons, ih, and_assoc,
      Nat.add_comm rest.length, Nat.add_assoc]

theorem Holds.middle {front piece back : List UInt8}
    (h : memory.Holds address (front ++ piece ++ back)) :
    memory.Holds (address + front.length) piece :=
  (holds_append.mp (holds_append.mp h).1).2

theorem Holds.le_size {bytes : List UInt8} (h : memory.Holds address bytes) :
    address + bytes.length ≤ memory.size :=
  h.1

theorem Holds.start_le {bytes : List UInt8} (h : memory.Holds address bytes) :
    address ≤ memory.size :=
  Nat.le_trans (Nat.le_add_right _ _) h.1

/-- A memory made of some bytes holds them at address 0. -/
theorem holds_toArray (bytes : List UInt8) : Holds bytes.toArray 0 bytes := by
  refine ⟨by simp, List.ext_getElem (by simp [Memory.bytes]) fun i _ bound => ?_⟩
  simp [Memory.bytes, byte, bound]

/-- What is held depends on the size of memory and the bytes in question alone. -/
theorem Holds.congr {bytes : List UInt8} (h : memory.Holds address bytes)
    (size : other.size = memory.size)
    (same : ∀ a, address ≤ a → a < address + bytes.length → other.byte a = memory.byte a) :
    other.Holds address bytes := by
  refine ⟨size ▸ h.1, Eq.trans ?_ h.2⟩
  apply List.map_congr_left
  intro i member
  have bound := List.mem_range.mp member
  exact same (address + i) (by omega) (by omega)

theorem putBytes_append (memory : Memory) (address : Nat) (front back : List UInt8) :
    memory.putBytes address (front ++ back) =
      (memory.putBytes address front).putBytes (address + front.length) back := by
  induction front generalizing memory address with
  | nil => rfl
  | cons b rest ih =>
    simp only [List.cons_append, putBytes, ih, List.length_cons, Nat.add_assoc, Nat.add_comm 1]

/-- What is written inside memory stands there. -/
theorem holds_putBytes {values : List UInt8} (fits : address + values.length ≤ memory.size) :
    (memory.putBytes address values).Holds address values := by
  refine ⟨by simpa using fits, ?_⟩
  apply List.ext_getElem
  · simp [bytes]
  · intro i _ bound
    simpa [bytes] using byte_putBytes_inside memory address i values fits bound

/-- What stands in memory stays there when something else is written. -/
theorem Holds.putBytes {bytes values : List UInt8} {written : Nat} (h : memory.Holds address bytes)
    (outside : written + values.length ≤ address ∨ address + bytes.length ≤ written) :
    (memory.putBytes written values).Holds address bytes :=
  h.congr (size_putBytes _ _ _) fun _ _ _ => byte_putBytes_of_outside _ _ _ _ (by omega)

/-- Of a list of pieces of one width, each piece stands at its place. -/
theorem Holds.flatMap {α : Type} {piece : α → List UInt8} {width i : Nat} {xs : List α} {x : α}
    (width_eq : ∀ x, (piece x).length = width) (h : memory.Holds address (xs.flatMap piece))
    (at_eq : xs[i]? = some x) : memory.Holds (address + width * i) (piece x) := by
  induction xs generalizing address i with
  | nil => cases at_eq
  | cons y rest ih =>
    obtain ⟨first, behind⟩ := holds_append.mp h
    cases i with
    | zero =>
      cases at_eq
      exact first
    | succ i =>
      rw [width_eq] at behind
      rw [Nat.mul_succ, Nat.add_comm _ width, ← Nat.add_assoc]
      exact ih behind at_eq

/-- The two bytes of a word stand in memory where the word does. -/
theorem holds_word {w : UInt16} {rest : List UInt8} :
    memory.Holds address (Word.bytes w ++ rest) ↔
      address + 1 < memory.size ∧ memory.word address = w ∧ memory.Holds (address + 2) rest := by
  simp only [Word.bytes, List.cons_append, List.nil_append, holds_cons, word]
  constructor
  · rintro ⟨-, high, inside, low, rest⟩
    refine ⟨inside, ?_, rest⟩
    rw [high, low, Word.ofBytes_high_low]
  · rintro ⟨inside, rfl, rest⟩
    exact ⟨by omega, (Word.high_ofBytes _ _).symm, inside, (Word.low_ofBytes _ _).symm, rest⟩

end ZMachine.Memory
