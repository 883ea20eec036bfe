import ZMachine.Machine.Basic
import ZMachine.Proofs.Operation

/-!
# Writing memory

Bytes of dynamic memory can be written, all others are refused. Addresses that a story can name are
addresses (`addressLimit`), so that neither case is a fault.
-/

namespace ZMachine.Machine

variable {m m' : Machine} {address : Nat} {value : UInt8} {values : List UInt8} {word : UInt16}

def withByte (m : Machine) (address : Nat) (value : UInt8) : Machine :=
  { m with memory := m.memory.put address value }

theorem dynamicSize_lt (m : Machine) : m.dynamicSize < 0x10000 :=
  m.story.header.staticBase.toNat_lt

theorem poke_of_lt (inside : address < m.memory.size) :
    poke address value m = .ok () (m.withByte address value) := by
  rw [poke, if_pos inside]
  rfl

theorem writeByte_of_lt (dynamic : address < m.dynamicSize) (inside : address < m.memory.size) :
    writeByte address value m = .ok () (m.withByte address value) := by
  have narrow := m.dynamicSize_lt
  have addressable : ¬ addressLimit ≤ address := by
    simp only [addressLimit]
    omega
  rw [writeByte, if_neg addressable, if_neg (Nat.not_le.mpr dynamic), poke_of_lt inside]

/-- Whatever has been written lies in memory, and nothing else has changed. -/
theorem eq_of_writeByte (h : writeByte address value m = .ok () m') :
    address < m.memory.size ∧ m' = m.withByte address value := by
  simp only [writeByte] at h
  split at h
  · cases h
  · split at h
    · cases h
    · by_cases inside : address < m.memory.size
      · rw [poke_of_lt inside] at h
        cases h
        exact ⟨inside, rfl⟩
      · rw [poke, if_neg inside] at h
        cases h

theorem lt_of_writeByte (h : writeByte address value m = .ok () m') : address < m.dynamicSize := by
  simp only [writeByte] at h
  split at h
  · cases h
  · split at h
    · cases h
    · next dynamic => exact Nat.lt_of_not_le dynamic

/-- A word that has been written lies in dynamic memory, and nothing else has changed. -/
theorem eq_of_writeWord (h : writeWord address word m = .ok () m') :
    address + 1 < m.dynamicSize ∧
      m' = { m with memory := m.memory.putBytes address (Word.bytes word) } := by
  obtain ⟨⟨⟩, mid, high, low⟩ := bind_eq_ok.mp h
  obtain ⟨-, rfl⟩ := eq_of_writeByte high
  have dynamic := lt_of_writeByte low
  obtain ⟨-, rfl⟩ := eq_of_writeByte low
  exact ⟨dynamic, rfl⟩

theorem eq_of_writeBytes (h : writeBytes address values m = .ok () m') :
    (values ≠ [] → address + values.length ≤ m.memory.size) ∧
      m' = { m with memory := m.memory.putBytes address values } := by
  induction values generalizing m address with
  | nil =>
    cases h
    exact ⟨nofun, rfl⟩
  | cons b rest ih =>
    obtain ⟨⟨⟩, mid, first, others⟩ := bind_eq_ok.mp h
    obtain ⟨inside, rfl⟩ := eq_of_writeByte first
    obtain ⟨fits, rfl⟩ := ih others
    refine ⟨fun _ => ?_, rfl⟩
    by_cases none : rest = []
    · rw [none]
      exact inside
    · have upTo := fits none
      simp only [withByte, Memory.size_put] at upTo
      simp only [List.length_cons]
      omega

theorem writeWord_of_lt (dynamic : address + 1 < m.dynamicSize)
    (inside : address + 1 < m.memory.size) :
    writeWord address word m =
      .ok () ((m.withByte address (Word.high word)).withByte (address + 1) (Word.low word)) := by
  have high : writeByte address (Word.high word) m =
      .ok () (m.withByte address (Word.high word)) := writeByte_of_lt (by omega) (by omega)
  have inside' : address + 1 < (m.withByte address (Word.high word)).memory.size := by
    rw [withByte, Memory.size_put]
    exact inside
  exact (bind_of_ok high).trans (writeByte_of_lt dynamic inside')

theorem word_of_writeWord (h : writeWord address word m = .ok () m') :
    m'.memory.word address = word ∧ m'.frames = m.frames ∧ m'.story = m.story := by
  obtain ⟨⟨⟩, mid, high, low⟩ := bind_eq_ok.mp h
  obtain ⟨inside, rfl⟩ := eq_of_writeByte high
  obtain ⟨inside', rfl⟩ := eq_of_writeByte low
  refine ⟨?_, rfl, rfl⟩
  simp only [withByte, Memory.size_put] at inside'
  have first : ((m.memory.put address (Word.high word)).put (address + 1)
      (Word.low word)).byte address = Word.high word := by
    rw [Memory.byte_put, if_neg (by omega), Memory.byte_put, if_pos ⟨rfl, inside⟩]
  have second : ((m.memory.put address (Word.high word)).put (address + 1)
      (Word.low word)).byte (address + 1) = Word.low word := by
    rw [Memory.byte_put, Memory.size_put, if_pos ⟨rfl, inside'⟩]
  rw [withByte, withByte, Memory.word, first, second, Word.ofBytes_high_low]

theorem writeByte_of_le (static : m.dynamicSize ≤ address) (addressable : address < addressLimit) :
    writeByte address value m = .error (.writeOutside address) m := by
  rw [writeByte, if_neg (Nat.not_le.mpr addressable), if_pos static]

end ZMachine.Machine
