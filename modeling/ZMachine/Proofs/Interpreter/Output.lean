import ZMachine.Interpreter.Output
import ZMachine.Proofs.Machine.Safety

/-!
# Safety of output to tables

Characters sent to a table go to consecutive addresses of 16 bits. The last of these addresses is
never dynamic memory, so that the end of memory stops the output before the count of characters
leaves its 16 bits.
-/

namespace ZMachine.Interpreter

variable {story : Story} {table count : UInt16}

/-- Any 65536 consecutive slots include the last address. -/
theorem exists_slot_last (table : UInt16) (first : Nat) :
    ∃ i ≤ 0xFFFF, tableSlot table (first + i) = 0xFFFF := by
  refine ⟨0xFFFF - (table.toNat + 2 + first) % 0x10000, by omega, ?_⟩
  simp only [tableSlot]
  omega

/-- If all characters before have been written, no more than 65535 of them have. -/
theorem kept_writeTable {m : Machine} {written : Nat} {text : List Char} (hs : story.Sound)
    (h : m.Sound story) (past : ∀ i < written, tableSlot table (count.toNat + i) < 0xFFFF) :
    Kept (Machine.Sound story) (fun _ => Machine.imageLimit ≤ story.image.size)
      (writeTable table count written text m) := by
  induction text generalizing m written with
  | nil => exact h
  | cons c rest ih =>
    have narrow : tableSlot table (count.toNat + written) < 0x10000 := Nat.mod_lt _ (by decide)
    rw [writeTable]
    rcases Nat.lt_or_ge (tableSlot table (count.toNat + written)) m.dynamicSize with
      inside | outside
    · have next : ∀ i < written + 1, tableSlot table (count.toNat + i) < 0xFFFF := by
        intro i lt
        rcases Nat.lt_succ_iff_lt_or_eq.mp lt with lt | rfl
        · exact past i lt
        · have bound := m.dynamicSize_lt
          omega
      have few : written + 1 < 0x10000 := by
        obtain ⟨i, le, last⟩ := exists_slot_last table count.toNat
        rcases Nat.lt_or_ge i (written + 1) with lt | ge
        · have bound := next i lt
          omega
        · omega
      have counted : Machine.query (fun _ => sized 16 (written + 1))
          (m.withByte (tableSlot table (count.toNat + written)) (.ofNat (Zscii.ofChar c))) =
            .ok (written + 1) _ :=
        Machine.query_of_ok (sized_eq_ok.mpr ⟨few, rfl⟩)
      rw [bind_of_ok (Machine.writeByte_of_lt inside
        (Nat.lt_of_lt_of_le inside (h.dynamic_le hs))), bind_of_ok counted]
      exact ih (h.withByte (h.dynamicSize_eq ▸ inside)) next
    · have addressable : tableSlot table (count.toNat + written) < Machine.addressLimit := by
        simp only [Machine.addressLimit]
        omega
      rw [bind_of_error (Machine.writeByte_of_le outside addressable)]
      refine ⟨h, ?_⟩
      intro eq
      cases eq

theorem safe_appendToTable {text : List Char} (hs : story.Sound) :
    Machine.Safe story (appendToTable table text) := by
  have addressable := Machine.lt_addressLimit_of_word table
  refine Keeps.bind (Keeps.query fun m _ fault => ?_) fun count => ?_
  · exact absurd fault (Machine.wordAt_ne_fault addressable)
  · refine Keeps.bind (fun m h => ?_) fun written => Machine.safe_writeWord hs fun _ => addressable
    exact kept_writeTable hs h fun i lt => absurd lt (Nat.not_lt_zero i)

end ZMachine.Interpreter
