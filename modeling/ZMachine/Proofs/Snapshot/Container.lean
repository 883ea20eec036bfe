import ZMachine.Proofs.Snapshot.Bounds

/-!
# Forms read back

A form whose identifiers have four bytes and whose length fits in 32 bits is read back from its
bytes, whatever follows them. If any of its bytes are missing at the end, it is refused, because it
says how long it is.
-/

namespace ZMachine.Container

def lengthLimit : Nat := 0x100000000

def body (c : Container) : List UInt8 :=
  c.formType ++ c.chunks.flatMap chunkBytes

/-- Type and identifiers have four bytes, and the length of the form fits in its field. -/
structure Sized (c : Container) : Prop where
  formType : c.formType.length = 4
  ids : ∀ chunk ∈ c.chunks, chunk.id.length = 4
  body : c.body.length < lengthLimit

theorem length_chunkBytes (chunk : Chunk) (id : chunk.id.length = 4) :
    (chunkBytes chunk).length = 8 + chunk.data.length + chunk.data.length % 2 := by
  simp only [chunkBytes, List.length_append, id, Word.longBytes, List.length_cons, List.length_nil,
    List.length_replicate]

theorem exists_four {l : List UInt8} (h : l.length = 4) : ∃ a b c d, l = [a, b, c, d] := by
  match l, h with
  | [a, b, c, d], _ => exact ⟨a, b, c, d, rfl⟩

theorem long_of_longBytes {n : Nat} (h : n < lengthLimit) :
    Word.long (.ofNat (n / 0x1000000)) (.ofNat (n / 0x10000)) (.ofNat (n / 0x100)) (.ofNat n) =
      n := by
  rw [Word.long_longBytes]
  exact Nat.mod_eq_of_lt h

theorem long_lt (a b c d : UInt8) : Word.long a b c d < lengthLimit := by
  have ha := a.toNat_lt
  have hb := b.toNat_lt
  have hc := c.toNat_lt
  have hd := d.toNat_lt
  simp only [Word.long, lengthLimit]
  omega

/-- A chunk is read back from its bytes, and the reader goes on behind its padding. -/
theorem readChunks_chunkBytes_append {chunk : Chunk} {rest : List UInt8} (id : chunk.id.length = 4)
    (short : chunk.data.length < lengthLimit) :
    readChunks (chunkBytes chunk ++ rest) =
      (do let chunks ← readChunks rest; pure (chunk :: chunks)) := by
  obtain ⟨id', data⟩ := chunk
  obtain ⟨a, b, c, d, rfl⟩ := exists_four id
  simp only [chunkBytes, Word.longBytes, List.cons_append, List.nil_append, List.append_assoc]
  rw [readChunks]
  simp only [long_of_longBytes short]
  rw [if_neg (by rw [List.length_append]; omega), List.take_left, ← List.append_assoc]
  rw [List.drop_left' (by rw [List.length_append, List.length_replicate])]

theorem readChunks_flatMap {chunks : List Chunk} (ids : ∀ chunk ∈ chunks, chunk.id.length = 4)
    (short : (chunks.flatMap chunkBytes).length < lengthLimit) :
    readChunks (chunks.flatMap chunkBytes) = .ok chunks := by
  induction chunks with
  | nil => rw [List.flatMap_nil, readChunks]
  | cons chunk rest ih =>
    have id := ids chunk List.mem_cons_self
    rw [List.flatMap_cons, List.length_append, length_chunkBytes chunk id] at short
    rw [List.flatMap_cons, readChunks_chunkBytes_append id (by omega),
      ih (fun other mem => ids other (List.mem_cons_of_mem _ mem)) (by omega)]
    rfl

/-- A form is read back from its bytes, whatever follows them. -/
theorem ofBytes_toBytes_append {c : Container} (h : c.Sized) (rest : List UInt8) :
    ofBytes (c.toBytes ++ rest) = .ok c := by
  obtain ⟨formType, ids, short⟩ := h
  obtain ⟨type, chunks⟩ := c
  obtain ⟨t₁, t₂, t₃, t₄, rfl⟩ := exists_four formType
  simp only [body, List.cons_append, List.nil_append, List.length_cons] at short
  simp only [toBytes, magic, Word.longBytes, List.cons_append, List.nil_append]
  rw [ofBytes_eq]
  simp only [List.length_cons, long_of_longBytes short]
  rw [if_neg (by simp [magic]), if_neg (by rw [List.length_append]; omega)]
  have front : (chunks.flatMap chunkBytes ++ rest).take
      ((chunks.flatMap chunkBytes).length + 1 + 1 + 1 + 1 - 4) = chunks.flatMap chunkBytes :=
    List.take_left' rfl
  have back : readChunks (chunks.flatMap chunkBytes) = .ok chunks :=
    readChunks_flatMap ids (by omega)
  rw [front, back]
  rfl

theorem length_toBytes (c : Container) : c.toBytes.length = 8 + c.body.length := by
  simp only [toBytes, body, magic, Word.longBytes, List.length_append, List.length_cons,
    List.length_nil]

/-- A form that has been cut short is refused. -/
theorem ofBytes_of_prefix {c : Container} (h : c.Sized) {front : List UInt8}
    (front_of : front <+: c.toBytes) (ne : front ≠ c.toBytes) :
    ∃ part, ofBytes front = .error (.badSnapshot (.truncated part)) := by
  rcases Nat.lt_or_ge front.length 12 with short | enough
  · exact ⟨.header, ofBytes_of_length_lt short⟩
  · refine ⟨.body, ?_⟩
    have less : front.length < c.toBytes.length := by
      refine Nat.lt_of_le_of_ne front_of.length_le fun eq => ne ?_
      exact front_of.eq_of_length eq
    have taken := List.prefix_iff_eq_take.mp front_of
    obtain ⟨more, enough⟩ := Nat.exists_eq_add_of_le enough
    obtain ⟨formType, ids, fits⟩ := h
    rw [length_toBytes] at less
    obtain ⟨type, chunks⟩ := c
    obtain ⟨t₁, t₂, t₃, t₄, rfl⟩ := exists_four formType
    simp only [body, List.cons_append, List.nil_append, List.length_cons] at fits less
    rw [enough, Nat.add_comm 12 more] at taken
    simp only [toBytes, magic, Word.longBytes, List.cons_append, List.nil_append,
      List.take_succ_cons] at taken
    rw [taken, ofBytes_eq]
    simp only [List.length_cons, long_of_longBytes fits]
    have missing : ((chunks.flatMap chunkBytes).take more).length + 4 <
        (chunks.flatMap chunkBytes).length + 1 + 1 + 1 + 1 := by
      rw [List.length_take]
      omega
    rw [if_neg (by simp [magic]), if_pos (Or.inl missing)]

end ZMachine.Container
