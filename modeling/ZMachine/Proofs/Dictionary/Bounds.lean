import ZMachine.Dictionary.Basic

/-!
# The dictionary is read within bounds

Where the machine checks each access to a dictionary, these are the values that it finds: the header
is as long as has been checked (`read_eq`), a row of words has three Z-characters for each, and a key
is what the packed Z-characters of a word begin with (`packKey_eq`). Only an entry can lie beyond the
end of memory (`rankAt_eq`).
-/

namespace ZMachine

namespace ZString

theorem filled_cons (a b c d : ZChar) (rest : List ZChar) :
    filled (a :: b :: c :: d :: rest) = a :: b :: c :: filled (d :: rest) := by
  have same : (rest.length + 1 + 1 + 1 + 1) % 3 = (rest.length + 1) % 3 := by omega
  simp [filled, same]

theorem isEmpty_filled (zchars : List ZChar) : (filled zchars).isEmpty = false := by
  cases zchars <;> rfl

theorem packTriples_nil : packTriples [] = .ok [] := by
  rw [packTriples]
  rfl

theorem packTriples_triple {a b c : ZChar} {rest : List ZChar} {words : List UInt16}
    (h : packTriples rest = .ok words) :
    packTriples (a :: b :: c :: rest) = .ok (packWord rest.isEmpty a b c :: words) := by
  rw [packTriples]
  exact except_bind_of_ok h

/-- There are three Z-characters for each word. -/
theorem packTriples_filled (zchars : List ZChar) :
    packTriples (filled zchars) = .ok (packWords zchars) := by
  induction zchars using packWords.induct with
  | case1 | case2 | case3 => exact packTriples_triple packTriples_nil
  | case4 a b c =>
    have full : filled [a, b, c] = [a, b, c] := by simp [filled]
    rw [full]
    exact packTriples_triple packTriples_nil
  | case5 a b c d rest ih =>
    rw [filled_cons, packTriples_triple ih, isEmpty_filled, packWords]

theorem length_packWords (zchars : List ZChar) :
    (packWords zchars).length = max 1 ((zchars.length + 2) / 3) := by
  fun_induction packWords zchars with
  | case1 | case2 | case3 | case4 => simp
  | case5 a b c d rest ih =>
    simp only [List.length_cons] at ih ⊢
    omega

theorem length_dictionaryKey (word : List Char) :
    (dictionaryKey word).length = Dictionary.keySize := by
  rw [dictionaryKey, pack, Word.length_flatMap_bytes, length_packWords, keyZChars, List.length_take,
    List.length_append, List.length_replicate, keyLength, Dictionary.keySize]
  omega

end ZString

namespace Dictionary

theorem packKey_eq (word : List Char) : packKey word = .ok (ZString.dictionaryKey word) := by
  have length := ZString.length_dictionaryKey word
  rw [packKey, except_bind_of_ok (ZString.packTriples_filled _)]
  change stretch (ZString.dictionaryKey word) 0 keySize = _
  rw [← length, stretch_of_le (Nat.zero_le _) (Nat.le_refl _), List.drop_zero, Nat.sub_zero,
    List.take_length]

theorem rankAt_eq (memory : Memory) (address : Nat) :
    rankAt memory address =
      if memory.size < address + keySize then .error .fault
      else .ok (rank (memory.bytes address keySize)) := by
  rw [rankAt]
  split
  · next outside => rw [Memory.bytesIn, if_neg (by omega)]; rfl
  · next inside =>
    rw [except_bind_of_ok (Memory.bytesIn_of_le (Nat.le_add_right _ _) (Nat.le_of_not_lt inside)),
      Nat.add_sub_cancel_left]
    rfl

theorem lookup_eq (d : Dictionary) (memory : Memory) (word : List Char) :
    d.lookup memory word =
      match d.search memory (rank (ZString.dictionaryKey word)) 0 d.entryCount with
      | .error e => .error e
      | .ok none => .ok 0
      | .ok (some address) => .ok (.ofNat address) := by
  rw [lookup, except_bind_of_ok (packKey_eq word)]
  generalize d.search memory _ 0 d.entryCount = found
  match found with
  | .error e => rfl
  | .ok none => rfl
  | .ok (some address) => rfl

/-- The header of a dictionary is in memory once its length is. -/
theorem read_eq (memory : Memory) (address : Nat) :
    read memory address =
      let separatorCount := (memory.byte address).toNat
      let lengthAddress := address + 1 + separatorCount
      let entryLength := (memory.byte lengthAddress).toNat
      let entryCount := (memory.word (lengthAddress + 1)).toNat
      let entries := lengthAddress + 3
      if memory.size ≤ address then .error (.badStory (.dictionaryAddress address))
      else if memory.size < entries then .error (.badStory .dictionaryHeader)
      else if entryLength < keySize then .error (.badStory (.entryLength entryLength))
      else if memory.size < entries + entryLength * entryCount then
        .error (.badStory (.entriesPastEnd entryCount))
      else
        .ok { separators := memory.bytes (address + 1) separatorCount
              entryLength, entryCount, entries } := by
  dsimp only
  rw [read]
  split
  · next none => rw [if_pos (Array.getElem?_eq_none_iff.mp none)]
  · next count some =>
    obtain ⟨inside, rfl⟩ := Array.getElem?_eq_some_iff.mp some
    have first : memory.byte address = memory[address] := (Array.getElem_eq_getD 0).symm
    rw [first, if_neg (Nat.not_le.mpr inside)]
    dsimp only
    split
    · rfl
    · next whole =>
      rw [except_bind_of_ok (Memory.bytesIn_of_le (by omega) (by omega)),
        except_bind_of_ok (Memory.byteIn_of_lt (by omega)),
        except_bind_of_ok (Memory.wordIn_of_lt (by omega)), Nat.add_sub_cancel_left]
      rfl

end Dictionary

end ZMachine
