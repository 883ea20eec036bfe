import ZMachine.Machine.InputLine
import ZMachine.Proofs.Dictionary.Bounds
import ZMachine.Proofs.Dictionary.Words
import ZMachine.Proofs.Machine.Safety
import ZMachine.Proofs.ZString.Decoding

/-!
# Safety of reading text and input

Decoding a string reads as far as memory goes. A dictionary that has been read has its entries in
memory (`Dictionary.Fits`), so that searching it finds a key wherever it looks; and a line of input
writes to addresses only.
-/

namespace ZMachine

namespace ZString

/-- Abbreviations that are no fault to expand. -/
def Faultless (abbreviations : Abbreviations) : Prop :=
  abbreviations ≠ .error .fault ∧ ∀ expansion, abbreviations = .ok expansion →
    ∀ number, expansion number ≠ .error .fault

variable {abbreviations : Abbreviations} {memory : Memory} {address table : Nat}

theorem decodeFrom_ne_fault {shift : Shift} {read : List Char} {zs : List ZChar}
    (h : Faultless abbreviations) : decodeFrom abbreviations shift read zs ≠ .error .fault := by
  fun_induction decodeFrom abbreviations shift read zs with
  | case1 => exact nofun
  | case2 _ _ _ _ _ ih => exact ih
  | case3 _ _ _ _ _ _ e none =>
    intro eq
    cases eq
    exact h.1 none
  | case4 => exact nofun
  | case5 _ _ _ _ _ expansion _ _ some e failed =>
    intro eq
    cases eq
    exact h.2 expansion some _ failed
  | case6 _ _ _ _ _ _ _ _ _ _ _ ih => exact ih
  | case7 _ _ _ _ _ ih => exact ih
  | case8 _ _ _ _ _ _ ih => exact ih
  | case9 _ _ _ _ _ _ _ _ _ _ _ ih => exact ih
  | case10 => exact nofun
  | case11 _ _ _ _ _ _ _ _ _ ih => exact ih

theorem decodeWith_ne_fault (h : Faultless abbreviations) :
    decodeWith abbreviations memory address ≠ .error .fault := by
  rw [decodeWith_eq]
  exact bind_ne_error (decodeFrom_ne_fault h) fun _ _ => nofun

theorem expand_ne_fault {number : Nat} : expand memory table address number ≠ .error .fault := by
  rw [expand_eq]
  split
  · exact nofun
  · exact bind_ne_error (decodeWith_ne_fault ⟨nofun, nofun⟩) fun _ _ => nofun

theorem decode_ne_fault : decode memory address table ≠ .error .fault := by
  refine decodeWith_ne_fault ⟨nofun, fun expansion eq number => ?_⟩
  cases eq
  exact expand_ne_fault

theorem decodePacked_ne_fault {packed : UInt16} :
    decodePacked memory packed table ≠ .error .fault :=
  bind_ne_error decode_ne_fault fun _ _ => nofun

end ZString

namespace Dictionary

/-- All entries lie in a memory of the given size, and each has room for its key. -/
structure Fits (d : Dictionary) (size : Nat) : Prop where
  key_le : keySize ≤ d.entryLength
  entries_le : d.entries + d.entryLength * d.entryCount ≤ size

theorem fits_of_read {memory : Memory} {address : Nat} {d : Dictionary}
    (h : read memory address = .ok d) : d.Fits memory.size := by
  simp only [read_eq] at h
  split at h
  · cases h
  · split at h
    · cases h
    · split at h
      · cases h
      · next key =>
        split at h
        · cases h
        · next entries =>
          cases h
          exact ⟨Nat.le_of_not_lt key, Nat.le_of_not_lt entries⟩

variable {d : Dictionary} {memory : Memory}

theorem Fits.entry_le {size index : Nat} (h : d.Fits size) (bound : index < d.entryCount) :
    d.entryAddress index + d.entryLength ≤ size := by
  have entries := h.entries_le
  have upTo : (index + 1) * d.entryLength ≤ d.entryCount * d.entryLength :=
    Nat.mul_le_mul_right _ bound
  rw [Nat.add_mul, Nat.one_mul] at upTo
  rw [Nat.mul_comm] at entries
  simp only [entryAddress]
  omega

theorem Fits.entryAddress_le {size index : Nat} (h : d.Fits size) (bound : index < d.entryCount) :
    d.entryAddress index + keySize ≤ size :=
  Nat.le_trans (Nat.add_le_add_left h.key_le _) (h.entry_le bound)

theorem rankAt_ne_fault {address : Nat} (inside : address + keySize ≤ memory.size) :
    rankAt memory address ≠ .error .fault := by
  rw [rankAt_eq, if_neg (Nat.not_lt.mpr inside)]
  exact nofun

theorem search_ne_fault {key low high : Nat} (h : d.Fits memory.size)
    (bound : high ≤ d.entryCount) : d.search memory key low high ≠ .error .fault := by
  fun_induction search d memory key low high with
  | case1 low high lt middle e failed =>
    intro eq
    cases eq
    exact rankAt_ne_fault (h.entryAddress_le (by omega)) failed
  | case2 _ _ _ _ _ _ _ ih => exact ih (by omega)
  | case3 _ _ _ _ _ _ _ _ ih => exact ih bound
  | case4 => exact nofun
  | case5 => exact nofun

theorem lookup_ne_fault {word : List Char} (h : d.Fits memory.size) :
    d.lookup memory word ≠ .error .fault := by
  rw [lookup_eq]
  split
  · next e failed =>
    intro eq
    cases eq
    exact search_ne_fault h (Nat.le_refl _) failed
  · exact nofun
  · exact nofun

theorem tokensOf_ne_fault {words : List (Nat × List UInt8)} (h : d.Fits memory.size) :
    d.tokensOf memory words ≠ .error .fault := by
  induction words with
  | nil => exact nofun
  | cons word rest ih =>
    refine bind_ne_error ?_ fun token _ => ?_
    · exact bind_ne_error (lookup_ne_fault h) fun _ _ => nofun
    · exact bind_ne_error ih fun _ _ => nofun

end Dictionary

namespace Machine

variable {story : Story}

theorem safe_writeBlocks {address : Nat} {tokens : List Token} (hs : story.Sound)
    (addressable : address + 4 * tokens.length ≤ addressLimit) :
    Safe story (writeBlocks address tokens) := by
  induction tokens generalizing address with
  | nil => exact Keeps.pure ()
  | cons token rest ih =>
    rw [List.length_cons] at addressable
    refine Keeps.bind ?_ fun _ => ih (by omega)
    refine Keeps.bind (safe_writeWord hs fun _ => by omega) fun _ => ?_
    refine Keeps.bind (safe_writeByte hs fun _ => by omega) fun _ => ?_
    exact safe_writeByte hs fun _ => by omega

theorem length_take_capacity (m : Machine) (text : Nat) (codes : List UInt8) :
    (codes.take (m.textCapacity text)).length < 0x100 := by
  have capacity := (m.memory.byte text).toNat_lt
  simp only [textCapacity, List.length_take]
  omega

theorem safe_storeLine {d : Dictionary} {line : List Char} {text parse : Nat} (hs : story.Sound)
    (hd : d.Fits story.image.size) (ht : text < 0x10000) (hp : parse < 0x10000) :
    Safe story (storeLine d line text parse) := by
  refine Keeps.get_bind fun m h => ?_
  have short := length_take_capacity m text (lineCodes line)
  generalize (lineCodes line).take (m.textCapacity text) = codes at short
  have lineWritten : Safe story (writeBytes (text + 1) codes) :=
    safe_writeBytes hs (by simp only [addressLimit]; omega)
  have ended : Safe story (writeByte (text + 1 + codes.length) 0) :=
    safe_writeByte hs fun _ => by simp only [addressLimit]; omega
  refine Keeps.bind lineWritten (fun _ => Keeps.bind ended fun _ => ?_) m h
  refine Keeps.ite (fun _ => Keeps.pure []) fun _ => ?_
  refine Keeps.bind (Keeps.query fun m h fault => ?_) fun found => Keeps.get_bind fun m h => ?_
  · rw [← h.size_eq] at hd
    rw [Dictionary.tokenize_eq] at fault
    exact absurd fault (Dictionary.tokensOf_ne_fault hd)
  · have few : (found.take (m.memory.byte parse).toNat).length < 0x100 := by
      have bound := (m.memory.byte parse).toNat_lt
      simp only [List.length_take]
      omega
    generalize found.take (m.memory.byte parse).toNat = tokens at few
    refine Keeps.bind (safe_writeByte hs fun _ => ?_) (fun _ => ?_) m h
    · simp only [addressLimit]
      omega
    · refine Keeps.bind (safe_writeBlocks hs ?_) fun _ => Keeps.pure _
      simp only [addressLimit]
      omega

end Machine

end ZMachine
