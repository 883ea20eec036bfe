import ZMachine.Proofs.Snapshot.Frames

/-!
# Lists of frames end by themselves

A list of frames states how long each of its parts is, so its bytes tell where it ends: with fewer
bytes it is cut short, with more of them some are left over. Bytes that are accepted are as many as
are written of the frames that are read from them, and the same but for the two bytes of each frame
that tell where its result goes (`delimited_of_ofBytes`).
-/

namespace ZMachine.Frames

/-- Where the bytes lie that tell where results of frames go, when those of the first frame begin at
`start`. They are behind the four bytes for where the caller goes on. -/
def storePlaces (start : Nat) : List Frame → List Nat
  | [] => []
  | f :: frames =>
    (start + 4) :: (start + 5) :: storePlaces (start + (frameBytes f).length) frames

variable {bytes body : List UInt8} {frames : List Frame} {stack : CallStack}

theorem length_frameWith (f : Frame) (mark mark' : StoreMark) :
    (frameWith f mark).length = (frameWith f mark').length := by
  simp [frameWith]

theorem getElem?_frameWith (f : Frame) (mark mark' : StoreMark) {i : Nat} (flag : i ≠ 4)
    (number : i ≠ 5) : (frameWith f mark)[i]? = (frameWith f mark')[i]? := by
  match i with
  | 0 | 1 | 2 | 3 => rfl
  | 4 => exact absurd rfl flag
  | 5 => exact absurd rfl number
  | _ + 6 => rfl

theorem Spells.length_eq (h : Spells frames body) :
    (frames.flatMap frameBytes).length = body.length := by
  induction h with
  | nil => rfl
  | @cons f mark frames body same rest ih =>
    obtain ⟨own, -, written⟩ := exists_mark f
    rw [List.flatMap_cons, List.length_append, List.length_append, ih, written,
      length_frameWith f own mark]

/-- Bytes that spell frames are those that are written of them, but for the places that tell where
results go. -/
theorem Spells.getElem?_eq (h : Spells frames body) {start i : Nat}
    (other : start + i ∉ storePlaces start frames) :
    (frames.flatMap frameBytes)[i]? = body[i]? := by
  induction h generalizing start i with
  | nil => rfl
  | @cons f mark frames body same rest ih =>
    obtain ⟨own, -, written⟩ := exists_mark f
    have length : (frameBytes f).length = (frameWith f mark).length := by
      rw [written, length_frameWith f own mark]
    simp only [storePlaces, List.mem_cons, not_or] at other
    obtain ⟨flag, number, behind⟩ := other
    rw [List.flatMap_cons]
    rcases Nat.lt_or_ge i (frameBytes f).length with inside | beyond
    · rw [List.getElem?_append_left inside, List.getElem?_append_left (by omega), written]
      exact getElem?_frameWith f own mark (by omega) (by omega)
    · have moved : start + (frameBytes f).length + (i - (frameBytes f).length) = start + i := by
        omega
      rw [← moved] at behind
      rw [List.getElem?_append_right beyond, List.getElem?_append_right (by omega), ← length]
      exact ih behind

/-- Without all of its bytes, a list of frames is cut short. -/
theorem Counted.refused_of_prefix (h : Counted frames bytes) {front : List UInt8}
    (front_of : front <+: bytes) (ne : front ≠ bytes) :
    ofBytes front = .error (.badSnapshot .framesTruncated) := by
  obtain ⟨back, rfl⟩ := front_of
  apply ofBytes_of_counted_error
  apply parses_counted.cut h
  rintro rfl
  exact ne (List.append_nil front).symm

/-- With more bytes than its own, some are left over. -/
theorem Counted.refused_of_append (h : Counted stack.toList bytes) {tail : List UInt8}
    (ne : tail ≠ []) : ofBytes (bytes ++ tail) = .error (.badSnapshot .trailingFrameBytes) := by
  obtain ⟨outermost, inner, eq, -⟩ := stack.exists_outermost
  have read : counted (bytes ++ tail) = .ok (stack.toList, tail) :=
    parses_counted.eq_ok_iff.mpr ⟨bytes, h, rfl⟩
  rw [ofBytes_of_counted read eq, if_pos ne]

theorem SpellsCounted.length_eq (h : SpellsCounted frames bytes) :
    (toBytes frames).length = bytes.length := by
  obtain ⟨body, rfl, spelled⟩ := h
  rw [toBytes, List.length_append, List.length_append, spelled.length_eq]

theorem SpellsCounted.getElem?_eq (h : SpellsCounted frames bytes) {i : Nat}
    (other : i ∉ storePlaces 2 frames) : (toBytes frames)[i]? = bytes[i]? := by
  obtain ⟨body, rfl, spelled⟩ := h
  match i with
  | 0 | 1 => rfl
  | j + 2 =>
    rw [Nat.add_comm] at other
    exact spelled.getElem?_eq other

/-- Bytes that are accepted as the frames of a call stack are refused as soon as one is missing at
the end or anything follows. The bytes that are written of those frames are as many, and accepted as
the same frames; they differ at most where it is told what becomes of the result of a frame. -/
theorem delimited_of_ofBytes (accepted : ofBytes bytes = .ok stack) :
    (∀ front, front <+: bytes → front ≠ bytes →
      ofBytes front = .error (.badSnapshot .framesTruncated)) ∧
    (∀ tail, tail ≠ [] →
      ofBytes (bytes ++ tail) = .error (.badSnapshot .trailingFrameBytes)) ∧
    (toBytes stack.toList).length = bytes.length ∧
    (∀ i, i ∉ storePlaces 2 stack.toList → (toBytes stack.toList)[i]? = bytes[i]?) ∧
    ofBytes (toBytes stack.toList) = .ok stack := by
  obtain ⟨sound, spelled⟩ := ofBytes_eq_ok_iff.mp accepted
  have list := counted_of_sound sound spelled
  refine ⟨?_, ?_, spelled.length_eq, ?_, ofBytes_toBytes sound⟩
  · intro front front_of ne
    exact list.refused_of_prefix front_of ne
  · intro tail ne
    exact list.refused_of_append ne
  · intro i other
    exact spelled.getElem?_eq other

/-- A routine with a local variable and a value on its stack, called from the top level. -/
def callingStack : CallStack where
  innermost := { returnPc := 0x1234, store := some 16, locals := [5], stack := [9] }
  callers := [.topLevel]

/-- Bytes of its frames that are not the written ones: the outer frame has a number behind its flag of
zero, and the inner one a flag of three. -/
def looselyMarked : List UInt8 :=
  [0, 2] ++ [0, 0, 0, 0, 0, 7, 0, 0, 0] ++ [0, 0, 0x12, 0x34, 3, 16, 1, 0, 5, 0, 1, 0, 9]

theorem delimited_looselyMarked :
    ofBytes looselyMarked = .ok callingStack ∧ toBytes callingStack.toList ≠ looselyMarked ∧
      ofBytes (looselyMarked.take 12) = .error (.badSnapshot .framesTruncated) ∧
      ofBytes (looselyMarked ++ [0]) = .error (.badSnapshot .trailingFrameBytes) ∧
      storePlaces 2 callingStack.toList = [6, 7, 15, 16] ∧
      (toBytes callingStack.toList)[17]? = looselyMarked[17]? ∧
      ofBytes (toBytes callingStack.toList) = .ok callingStack := by
  have accepted : ofBytes looselyMarked = .ok callingStack := by rfl
  have places : storePlaces 2 callingStack.toList = [6, 7, 15, 16] := by decide
  obtain ⟨cut, long, -, other, again⟩ := delimited_of_ofBytes accepted
  refine ⟨accepted, by decide, ?_, long [0] (by decide), places, ?_, again⟩
  · exact cut _ (List.take_prefix 12 looselyMarked) (by decide)
  · apply other
    rw [places]
    decide

end ZMachine.Frames
