import ZMachine.Error
import ZMachine.Memory

/-!
# Checked access

An index past the end, a stretch that does not lie in its row, a difference below zero and a number
too large for its field are faults. Operations that rely on a check made earlier go through these,
so that the fault shows should the check be missing. Sums of 16 and 32 bits and all differences are
of this kind; sums of addresses within one memory have 64 bits and are exact, as no memory is long
enough for another result.
-/

namespace ZMachine

variable {ε α β : Type}

theorem except_bind_of_ok {x : Except ε α} {f : α → Except ε β} {a : α} (h : x = .ok a) :
    (x >>= f) = f a := by
  rw [h]
  rfl

/-- A count or an address of so many bits; one that does not fit is a fault. -/
def sized (bits n : Nat) : Except MachineError Nat :=
  if n < 1 <<< bits then .ok n else .error .fault

/-- The difference of two numbers without a sign. -/
def subtract (a b : Nat) : Except MachineError Nat :=
  if b ≤ a then .ok (a - b) else .error .fault

/-- Something that has to be there. -/
def present : Option α → Except MachineError α
  | some a => .ok a
  | none => .error .fault

/-- The elements from one place up to before another. -/
def stretch (xs : List α) (start stop : Nat) : Except MachineError (List α) :=
  if start ≤ stop ∧ stop ≤ xs.length then .ok ((xs.drop start).take (stop - start))
  else .error .fault

@[simp] theorem present_some (a : α) : present (some a) = .ok a := rfl

theorem subtract_of_le {a b : Nat} (le : b ≤ a) : subtract a b = .ok (a - b) :=
  if_pos le

theorem stretch_of_le {xs : List α} {start stop : Nat} (ordered : start ≤ stop)
    (inside : stop ≤ xs.length) :
    stretch xs start stop = .ok ((xs.drop start).take (stop - start)) :=
  if_pos ⟨ordered, inside⟩

theorem stretch_append (front middle back : List α) :
    stretch (front ++ middle ++ back) front.length (front.length + middle.length) = .ok middle := by
  rw [stretch_of_le (Nat.le_add_right _ _) (by simp), List.append_assoc,
    List.drop_left, Nat.add_sub_cancel_left, List.take_left]

/-- All but the first element, of which there has to be one. -/
theorem stretch_cons (a : α) (xs : List α) : stretch (a :: xs) 1 (xs.length + 1) = .ok xs := by
  rw [stretch_of_le (by omega) (by simp)]
  simp

namespace Memory

variable {memory : Memory} {address : Nat}

def byteIn (memory : Memory) (address : Nat) : Except MachineError UInt8 :=
  present memory[address]?

def wordIn (memory : Memory) (address : Nat) : Except MachineError UInt16 := do
  let high ← memory.byteIn address
  let low ← memory.byteIn (address + 1)
  pure (Word.ofBytes high low)

/-- The four bytes at an address as one number. -/
def longIn (memory : Memory) (address : Nat) : Except MachineError Nat := do
  let a ← memory.byteIn address
  let b ← memory.byteIn (address + 1)
  let c ← memory.byteIn (address + 2)
  let d ← memory.byteIn (address + 3)
  pure (Word.long a b c d)

/-- The bytes from one address up to before another. -/
def bytesIn (memory : Memory) (start stop : Nat) : Except MachineError (List UInt8) :=
  if start ≤ stop ∧ stop ≤ memory.size then .ok (memory.bytes start (stop - start))
  else .error .fault

theorem byteIn_of_lt (inside : address < memory.size) :
    memory.byteIn address = .ok (memory.byte address) := by
  rw [byteIn, Array.getElem?_eq_getElem inside, byte, ← Array.getElem_eq_getD]
  rfl

theorem wordIn_of_lt (inside : address + 1 < memory.size) :
    memory.wordIn address = .ok (memory.word address) := by
  rw [wordIn, byteIn_of_lt (Nat.lt_of_succ_lt inside), byteIn_of_lt inside]
  rfl

theorem longIn_of_lt (inside : address + 3 < memory.size) :
    memory.longIn address = .ok (Word.long (memory.byte address) (memory.byte (address + 1))
      (memory.byte (address + 2)) (memory.byte (address + 3))) := by
  rw [longIn, byteIn_of_lt (by omega), byteIn_of_lt (by omega), byteIn_of_lt (by omega),
    byteIn_of_lt inside]
  rfl

theorem bytesIn_of_le {start stop : Nat} (ordered : start ≤ stop) (inside : stop ≤ memory.size) :
    memory.bytesIn start stop = .ok (memory.bytes start (stop - start)) :=
  if_pos ⟨ordered, inside⟩

end Memory

end ZMachine
