import ZMachine.Proofs.Snapshot.Basic
import ZMachine.Proofs.Snapshot.Container

/-!
# Forms and their padding

What a reader of forms accepts differs from what is written in the padding alone: it looks at no pad
byte, and the one behind the last chunk may be missing (`Spells`). So the bytes of a form up to the
length that it states determine the form, and the form determines them but for the padding
(`roundTrip_and_delimited`).
-/

namespace ZMachine.Container

/-- The bytes of a chunk, with some byte as padding. -/
def chunkWith (chunk : Chunk) (pad : UInt8) : List UInt8 :=
  chunk.id ++ Word.longBytes chunk.data.length ++ chunk.data ++
    List.replicate (chunk.data.length % 2) pad

/-- The bytes of chunks, each with its own pad byte. -/
def chunksWith (chunks : List Chunk) (pads : List UInt8) : List UInt8 :=
  (List.zipWith chunkWith chunks pads).flatten

def bodyWith (c : Container) (pads : List UInt8) : List UInt8 :=
  c.formType ++ chunksWith c.chunks pads

/-- A body behind its magic and its length. -/
def framed (body : List UInt8) : List UInt8 :=
  magic ++ Word.longBytes body.length ++ body

/-- There is a last chunk, and a pad byte belongs behind it. -/
def EndsOdd (chunks : List Chunk) : Prop :=
  ∃ chunk, chunks.getLast? = some chunk ∧ chunk.data.length % 2 = 1

/-- The bytes are those of the form but for what its pad bytes are. The one behind the last chunk
may be missing, and the length of the body is then one less. -/
def Spells (c : Container) (bytes : List UInt8) : Prop :=
  ∃ pads : List UInt8, pads.length = c.chunks.length ∧
    (bytes = framed (c.bodyWith pads) ∨
      EndsOdd c.chunks ∧ bytes = framed (c.bodyWith pads).dropLast)

/-- The length that the bytes of a form state, behind the magic. -/
def statedLength (bytes : List UInt8) : Nat :=
  match bytes.drop 4 with
  | l₁ :: l₂ :: l₃ :: l₄ :: _ => Word.long l₁ l₂ l₃ l₄
  | _ => 0

variable {c : Container} {chunk : Chunk} {chunks : List Chunk} {bytes pads rest : List UInt8}

theorem chunksWith_cons {pad : UInt8} :
    chunksWith (chunk :: chunks) (pad :: pads) = chunkWith chunk pad ++ chunksWith chunks pads :=
  rfl

/-- Padded with zeros, a form is what is written of it. -/
theorem toBytes_eq_framed (c : Container) :
    c.toBytes = framed (c.bodyWith (List.replicate c.chunks.length 0)) := by
  have chunks (chunks : List Chunk) :
      chunks.flatMap chunkBytes = chunksWith chunks (List.replicate chunks.length 0) := by
    induction chunks with
    | nil => rfl
    | cons chunk rest ih =>
      rw [List.flatMap_cons, List.length_cons, List.replicate_succ, chunksWith_cons, ih]
      rfl
  rw [toBytes, framed, bodyWith, chunks]

theorem length_chunksWith (paired : pads.length = chunks.length) :
    (chunksWith chunks pads).length = (chunks.flatMap chunkBytes).length := by
  induction chunks generalizing pads with
  | nil =>
    rw [List.length_eq_zero_iff.mp paired]
    rfl
  | cons chunk rest ih =>
    obtain ⟨pad, pads, rfl⟩ := List.exists_cons_of_length_eq_add_one paired
    rw [chunksWith_cons, List.length_append, List.flatMap_cons, List.length_append,
      ih (Nat.succ.inj paired)]
    simp only [chunkWith, chunkBytes, List.length_append, List.length_replicate]

theorem length_bodyWith (paired : pads.length = c.chunks.length) :
    (c.bodyWith pads).length = c.body.length := by
  rw [bodyWith, List.length_append, length_chunksWith paired, body, List.length_append]

/-! ### Chunks that have been read -/

/-- The bytes are those of the chunks, padded somehow, or lack the last pad byte alone. -/
def Fills (chunks : List Chunk) (bytes : List UInt8) : Prop :=
  ∃ pads : List UInt8, pads.length = chunks.length ∧
    (bytes = chunksWith chunks pads ∨
      EndsOdd chunks ∧ ∃ pad, bytes ++ [pad] = chunksWith chunks pads)

theorem fills_nil : Fills [] [] :=
  ⟨[], rfl, Or.inl rfl⟩

theorem EndsOdd.cons (odd : EndsOdd chunks) : EndsOdd (chunk :: chunks) := by
  obtain ⟨last, isLast, odd⟩ := odd
  refine ⟨last, ?_, odd⟩
  rw [List.getLast?_cons, isLast]
  rfl

/-- With a chunk and its padding before them, bytes still fill their chunks. -/
theorem Fills.cons (h : Fills chunks rest) (chunk : Chunk) (pad : UInt8) :
    Fills (chunk :: chunks) (chunkWith chunk pad ++ rest) := by
  obtain ⟨pads, paired, whole | ⟨odd, last, short⟩⟩ := h
  · exact ⟨pad :: pads, congrArg _ paired, Or.inl (by rw [chunksWith_cons, whole])⟩
  · refine ⟨pad :: pads, congrArg _ paired, Or.inr ⟨odd.cons, last, ?_⟩⟩
    rw [List.append_assoc, short, chunksWith_cons]

/-- The last chunk may go without its pad byte. -/
theorem fills_unpadded (odd : chunk.data.length % 2 = 1) :
    Fills [chunk] (chunk.id ++ Word.longBytes chunk.data.length ++ chunk.data) := by
  refine ⟨[0], rfl, Or.inr ⟨⟨chunk, rfl, odd⟩, 0, ?_⟩⟩
  rw [chunksWith_cons, chunkWith, odd]
  exact (List.append_nil _).symm

/-- Data and what is behind its padding, if all of that is there. -/
theorem exists_padding {n : Nat} (enough : n + n % 2 ≤ rest.length) :
    ∃ pad, rest = rest.take n ++ List.replicate (n % 2) pad ++ rest.drop (n + n % 2) := by
  have cut : rest.drop n = (rest.drop n).take (n % 2) ++ rest.drop (n + n % 2) := by
    rw [← List.drop_drop, List.take_append_drop]
  have length : ((rest.drop n).take (n % 2)).length = n % 2 := by
    rw [List.length_take, List.length_drop]
    omega
  obtain ⟨pad, padding⟩ : ∃ pad, (rest.drop n).take (n % 2) = List.replicate (n % 2) pad := by
    rcases Nat.mod_two_eq_zero_or_one n with even | odd
    · rw [even]
      exact ⟨0, rfl⟩
    · rw [odd] at length ⊢
      obtain ⟨pad, single⟩ := List.length_eq_one_iff.mp length
      exact ⟨pad, single⟩
  refine ⟨pad, ?_⟩
  rw [← padding, List.append_assoc, ← cut, List.take_append_drop]

/-- The chunks that are read from a stretch of bytes fill it. -/
theorem fills_of_readChunks (h : readChunks bytes = .ok chunks) :
    (∀ chunk ∈ chunks, chunk.id.length = 4) ∧ Fills chunks bytes := by
  fun_induction readChunks bytes generalizing chunks with
  | case1 =>
    cases h
    exact ⟨List.forall_mem_nil _, fills_nil⟩
  | case2 => cases h
  | @case3 a b c d l₁ l₂ l₃ l₄ rest length enough ih =>
    have stated : Word.longBytes length = [l₁, l₂, l₃, l₄] := Word.longBytes_long l₁ l₂ l₃ l₄
    clear_value length
    obtain ⟨behind, read, eq⟩ := except_bind_eq_ok.mp h
    cases eq
    obtain ⟨ids, fills⟩ := ih read
    refine ⟨List.forall_mem_cons.mpr ⟨rfl, ids⟩, ?_⟩
    have taken : (rest.take length).length = length := by
      rw [List.length_take]
      omega
    by_cases whole : length + length % 2 ≤ rest.length
    · obtain ⟨pad, parts⟩ := exists_padding whole
      have bytes_eq := fills.cons { id := [a, b, c, d], data := rest.take length } pad
      rw [chunkWith, taken, stated] at bytes_eq
      simpa only [List.append_assoc, List.cons_append, List.nil_append, ← parts] using bytes_eq
    · -- Only a pad byte can be missing, so the data ends the stretch.
      have odd : length % 2 = 1 := by omega
      have all : rest.take length = rest := List.take_of_length_le (by omega)
      have nothing : rest.drop (length + length % 2) = [] := List.drop_of_length_le (by omega)
      rw [nothing, readChunks] at read
      cases read
      have bytes_eq := @fills_unpadded { id := [a, b, c, d], data := rest.take length }
        (by rw [taken, odd])
      rw [taken, stated] at bytes_eq
      simpa only [all, List.cons_append, List.nil_append] using bytes_eq
  | case4 => cases h

/-! ### Forms that have been read -/

theorem exists_twelve (enough : 12 ≤ bytes.length) :
    ∃ m₁ m₂ m₃ m₄ l₁ l₂ l₃ l₄ t₁ t₂ t₃ t₄ rest, bytes =
      m₁ :: m₂ :: m₃ :: m₄ :: l₁ :: l₂ :: l₃ :: l₄ :: t₁ :: t₂ :: t₃ :: t₄ :: rest := by
  have front : (bytes.take 12).length = 12 := List.length_take_of_le enough
  rw [← List.take_append_drop 12 bytes]
  match bytes.take 12, front with
  | [m₁, m₂, m₃, m₄, l₁, l₂, l₃, l₄, t₁, t₂, t₃, t₄], _ =>
    exact ⟨m₁, m₂, m₃, m₄, l₁, l₂, l₃, l₄, t₁, t₂, t₃, t₄, _, rfl⟩

/-- What is accepted: a length behind the magic, the type, and as many more bytes as the length says,
in which the chunks are read. -/
theorem ofBytes_eq_ok (h : ofBytes bytes = .ok c) :
    ∃ n rest, bytes = magic ++ Word.longBytes (4 + n) ++ (c.formType ++ rest) ∧
      c.formType.length = 4 ∧ 4 + n < lengthLimit ∧ n ≤ rest.length ∧
      readChunks (rest.take n) = .ok c.chunks := by
  rcases Nat.lt_or_ge bytes.length 12 with short | enough
  · rw [ofBytes_of_length_lt short] at h
    cases h
  · obtain ⟨m₁, m₂, m₃, m₄, l₁, l₂, l₃, l₄, t₁, t₂, t₃, t₄, rest, rfl⟩ := exists_twelve enough
    rw [ofBytes_eq] at h
    dsimp only at h
    split at h
    · cases h
    · next isForm =>
      split at h
      · cases h
      · next inside =>
        obtain ⟨chunks, read, eq⟩ := except_bind_eq_ok.mp h
        cases eq
        obtain ⟨n, stated⟩ : ∃ n, Word.long l₁ l₂ l₃ l₄ = 4 + n :=
          Nat.exists_eq_add_of_le (by omega)
        have lengthBytes := Word.longBytes_long l₁ l₂ l₃ l₄
        have limit := long_lt l₁ l₂ l₃ l₄
        rw [stated] at inside read lengthBytes limit
        rw [Nat.add_sub_cancel_left] at read
        refine ⟨n, rest, ?_, rfl, limit, by omega, read⟩
        rw [lengthBytes, ← Classical.not_not.mp isForm]
        rfl

theorem statedLength_eq {n : Nat} (short : n < lengthLimit) :
    statedLength (magic ++ Word.longBytes n ++ rest) = n :=
  long_of_longBytes short

/-- Bytes that are accepted begin with the form, and state where it ends. -/
theorem spells_of_ofBytes (h : ofBytes bytes = .ok c) :
    c.formType.length = 4 ∧ (∀ chunk ∈ c.chunks, chunk.id.length = 4) ∧
      c.Spells (bytes.take (8 + statedLength bytes)) ∧ 8 + statedLength bytes ≤ bytes.length := by
  obtain ⟨n, rest, rfl, formType, limit, inside, read⟩ := ofBytes_eq_ok h
  obtain ⟨ids, pads, paired, fills⟩ := fills_of_readChunks read
  have head : (magic ++ Word.longBytes (4 + n)).length = 8 := rfl
  have length : (c.formType ++ rest.take n).length = 4 + n := by
    rw [List.length_append, formType, List.length_take_of_le inside]
  have front : (magic ++ Word.longBytes (4 + n) ++ (c.formType ++ rest)).take (8 + (4 + n)) =
      framed (c.formType ++ rest.take n) := by
    rw [framed, length, ← head, List.take_length_add_append, ← formType,
      List.take_length_add_append]
  rw [statedLength_eq limit]
  refine ⟨formType, ids, ⟨pads, paired, ?_⟩, ?_⟩
  · rw [front]
    rcases fills with whole | ⟨odd, pad, short⟩
    · exact Or.inl (by rw [bodyWith, whole])
    · refine Or.inr ⟨odd, ?_⟩
      rw [bodyWith, ← short, ← List.append_assoc, List.dropLast_concat]
  · rw [List.length_append, head, List.length_append, formType]
    omega

/-- At most the last pad byte is missing. -/
theorem length_toBytes_le_of_spells (h : c.Spells bytes) : c.toBytes.length ≤ bytes.length + 1 := by
  have length (body : List UInt8) : (framed body).length = 8 + body.length := by
    simp only [framed, magic, Word.longBytes, List.length_append, List.length_cons,
      List.length_nil]
  obtain ⟨pads, paired, rfl | ⟨-, rfl⟩⟩ := h
  · rw [length, length_bodyWith paired, length_toBytes]
    omega
  · rw [length, List.length_dropLast, length_bodyWith paired, length_toBytes]
    omega

/-- A form is read back from its bytes, whatever follows them, and refused if any of them are
missing at the end. Whatever bytes are accepted as a form, its own bytes are accepted as that form,
too; up to the length that the accepted bytes state, they are the form's own bytes but for its
padding. -/
theorem roundTrip_and_delimited :
    (∀ c : Container, c.formType.length = 4 → (∀ chunk ∈ c.chunks, chunk.id.length = 4) →
      c.toBytes.length < 0x100000000 →
      (∀ tail, ofBytes (c.toBytes ++ tail) = .ok c) ∧
      ∀ front, front <+: c.toBytes → front ≠ c.toBytes → ∃ e, ofBytes front = .error e) ∧
    ∀ (bytes : List UInt8) (c : Container), bytes.length < 0xFFFFFFFF → ofBytes bytes = .ok c →
      ofBytes c.toBytes = .ok c ∧
      c.toBytes = framed (c.bodyWith (List.replicate c.chunks.length 0)) ∧
      c.Spells (bytes.take (8 + statedLength bytes)) := by
  refine ⟨fun c formType ids short => ?_, fun bytes c short h => ?_⟩
  · rw [length_toBytes] at short
    have sized : c.Sized := ⟨formType, ids, Nat.lt_of_le_of_lt (Nat.le_add_left _ _) short⟩
    refine ⟨ofBytes_toBytes_append sized, fun front front_of ne => ?_⟩
    obtain ⟨part, refused⟩ := ofBytes_of_prefix sized front_of ne
    exact ⟨_, refused⟩
  · obtain ⟨formType, ids, spells, inside⟩ := spells_of_ofBytes h
    have length := length_toBytes_le_of_spells spells
    rw [List.length_take_of_le inside, length_toBytes] at length
    have sized : c.Sized := ⟨formType, ids, by simp only [lengthLimit]; omega⟩
    have back := ofBytes_toBytes_append sized []
    rw [List.append_nil] at back
    exact ⟨back, toBytes_eq_framed c, spells⟩

/-- A form of two chunks of one byte each, without the second pad byte and with something behind
it. -/
theorem roundTrip_looselyPadded :
    ∃ c bytes, c.formType.length = 4 ∧ (∀ chunk ∈ c.chunks, chunk.id.length = 4) ∧
      c.toBytes.length < 0x100000000 ∧ bytes.length < 0xFFFFFFFF ∧ ofBytes bytes = .ok c ∧
      ofBytes (c.toBytes ++ [1]) = .ok c ∧
      c.Spells (magic ++ [0, 0, 0, 23] ++ [71, 82, 85, 69] ++ [65, 65, 65, 65, 0, 0, 0, 1, 5, 9] ++
        [66, 66, 66, 66, 0, 0, 0, 1, 6]) ∧
      ∃ e, ofBytes (c.toBytes.take 12) = .error e := by
  let c : Container :=
    { formType := [71, 82, 85, 69], chunks := [⟨[65, 65, 65, 65], [5]⟩, ⟨[66, 66, 66, 66], [6]⟩] }
  let bytes : List UInt8 := magic ++ [0, 0, 0, 23] ++ [71, 82, 85, 69] ++
    [65, 65, 65, 65, 0, 0, 0, 1, 5, 9] ++ [66, 66, 66, 66, 0, 0, 0, 1, 6] ++ [0, 7]
  have ids : ∀ chunk ∈ c.chunks, chunk.id.length = 4 := by decide
  have accepted : ofBytes bytes = .ok c := by cbv
  obtain ⟨writing, reading⟩ := roundTrip_and_delimited
  obtain ⟨back, cut⟩ := writing c rfl ids (by decide +kernel)
  obtain ⟨-, -, spells⟩ := reading bytes c (by decide) accepted
  exact ⟨c, bytes, rfl, ids, by decide +kernel, by decide, accepted, back [1], spells,
    cut _ (List.take_prefix 12 _) (by decide +kernel)⟩

end ZMachine.Container
