import ZMachine.Proofs.Snapshot.FrameFormat

/-!
# Frames read back

Bytes are accepted as a call stack just if the stack is within the limits (`CallStack.Sound`) and the
bytes spell its frames (`ofBytes_eq_ok_iff`); in particular, such a stack is read back from the bytes
that are written of it.
-/

namespace ZMachine

namespace Frames

variable {bytes rest : List UInt8} {stack : CallStack}

theorem counted_of_sound (sound : stack.Sound) (spelled : SpellsCounted stack.toList bytes) :
    Counted stack.toList bytes where
  ne_nil := by simp [CallStack.toList]
  count_le := by
    rw [CallStack.length_toList]
    exact sound.count_le
  sound f mem := sound.frames f (CallStack.mem_toList.mp mem)
  spelled := spelled

theorem Counted.sound_of_toList (list : Counted stack.toList bytes)
    (outermost : ∀ f, (stack.innermost :: stack.callers).getLast? = some f → f.locals = []) :
    stack.Sound where
  frames f mem := list.sound f (CallStack.mem_toList.mpr mem)
  outermost := outermost
  count_le := by
    rw [← CallStack.length_toList]
    exact list.count_le

/-- When the frames behind their number have been read, nothing may follow them, and the outermost
one may have no locals. -/
theorem ofBytes_of_counted {outermost : Frame} {inner : List Frame}
    (read : counted bytes = .ok (stack.toList, rest)) (eq : stack.toList = outermost :: inner) :
    ofBytes bytes =
      if rest ≠ [] then .error (.badSnapshot .trailingFrameBytes)
      else if outermost.locals ≠ [] then .error (.badSnapshot .topLevelLocals)
      else .ok stack := by
  obtain ⟨count, mid, first, read⟩ := reader_bind_eq_ok.mp read
  split at read
  · cases read
  · next some =>
    have back := CallStack.ofList?_toList stack
    rw [eq] at read back
    rw [ofBytes, first]
    simp only [bind, Except.bind, if_neg some, read, back]
    rfl

theorem ofBytes_of_counted_error {e : MachineError} (refused : counted bytes = .error e) :
    ofBytes bytes = .error e := by
  cases first : word bytes with
  | error e' =>
    rw [counted, reader_bind_of_error first] at refused
    cases refused
    rw [ofBytes, first]
    rfl
  | ok r =>
    obtain ⟨count, mid⟩ := r
    rw [counted, reader_bind_of_ok first] at refused
    rw [ofBytes, first]
    simp only [bind, Except.bind]
    split at refused
    · next none =>
      cases refused
      rw [if_pos none]
      rfl
    · next some => rw [if_neg some, refused]

/-- Bytes are accepted as a call stack just if it is within the limits and they spell its frames. -/
theorem ofBytes_eq_ok_iff :
    ofBytes bytes = .ok stack ↔ stack.Sound ∧ SpellsCounted stack.toList bytes := by
  constructor
  · intro h
    cases read : counted bytes with
    | error e =>
      rw [ofBytes_of_counted_error read] at h
      cases h
    | ok r =>
      obtain ⟨frames, rest⟩ := r
      obtain ⟨used, list, rfl⟩ := parses_counted.eq_ok_iff.mp read
      obtain ⟨found, rfl⟩ := CallStack.exists_toList_eq list.ne_nil
      obtain ⟨outermost, inner, eq, last⟩ := found.exists_outermost
      rw [ofBytes_of_counted read eq] at h
      split at h
      · cases h
      · next all =>
        split at h
        · cases h
        · next empty =>
          cases h
          rw [Classical.not_not.mp all, List.append_nil]
          refine ⟨list.sound_of_toList fun f isLast => ?_, list.spelled⟩
          rw [last] at isLast
          cases isLast
          exact Classical.not_not.mp empty
  · rintro ⟨sound, spelled⟩
    obtain ⟨outermost, inner, eq, last⟩ := stack.exists_outermost
    have read : counted bytes = .ok (stack.toList, []) :=
      parses_counted.eq_ok_iff.mpr ⟨bytes, counted_of_sound sound spelled, by simp⟩
    rw [ofBytes_of_counted read eq, if_neg (by simp), if_neg (by simpa using sound.outermost _ last)]

theorem sound_of_ofBytes (h : ofBytes bytes = .ok stack) : stack.Sound :=
  (ofBytes_eq_ok_iff.mp h).1

/-- The frames of a call stack within the limits are read back from their bytes. -/
theorem ofBytes_toBytes (h : stack.Sound) : ofBytes (toBytes stack.toList) = .ok stack :=
  ofBytes_eq_ok_iff.mpr ⟨h, _, rfl, spells_flatMap_frameBytes _⟩

/-- Bytes that a frame within the limits takes at most. -/
def frameSize : Nat := 2088

theorem length_frameBytes_le {f : Frame} (h : f.Sound) : (frameBytes f).length ≤ frameSize := by
  have locals_le := h.locals_le
  have stack_le := h.stack_le
  have store : (storeBytes f.store).length = 2 := by cases f.store <;> rfl
  simp only [localsLimit, stackLimit] at locals_le stack_le
  simp only [frameBytes, List.length_append, List.length_cons, Word.length_flatMap_bytes, store,
    Word.longBytes, Word.bytes, List.length_nil, List.length_reverse, frameSize]
  omega

theorem length_flatMap_frameBytes_le {frames : List Frame} (h : ∀ f ∈ frames, f.Sound) :
    (frames.flatMap frameBytes).length ≤ frames.length * frameSize := by
  induction frames with
  | nil => exact Nat.le_refl _
  | cons f rest ih =>
    have first := length_frameBytes_le (h f List.mem_cons_self)
    have others := ih fun g mem => h g (List.mem_cons_of_mem _ mem)
    rw [List.flatMap_cons, List.length_append, List.length_cons, Nat.add_mul]
    omega

theorem length_toBytes_le (h : stack.Sound) :
    (toBytes stack.toList).length ≤ 2 + frameLimit * frameSize := by
  have frames := length_flatMap_frameBytes_le fun f hf => h.frames f (CallStack.mem_toList.mp hf)
  have length : stack.toList.length ≤ frameLimit := by
    rw [CallStack.length_toList]
    exact h.count_le
  have bound := Nat.mul_le_mul_right frameSize length
  rw [toBytes, List.length_append, Word.bytes, List.length_cons, List.length_singleton]
  exact Nat.add_le_add_left (Nat.le_trans frames bound) 2

/-! ### No faults -/

theorem byte_ne_fault : byte bytes ≠ .error .fault := by
  cases bytes <;> exact nofun

theorem word_ne_fault : word bytes ≠ .error .fault := by
  rw [word_eq]
  split <;> exact nofun

theorem long_ne_fault : long bytes ≠ .error .fault := by
  rw [long_eq]
  split <;> exact nofun

theorem wordList_ne_fault {n : Nat} : wordList n bytes ≠ .error .fault := by
  induction n generalizing bytes with
  | zero => exact nofun
  | succ n ih =>
    exact reader_bind_ne_error word_ne_fault fun _ _ _ =>
      reader_bind_ne_error ih fun _ _ _ => nofun

theorem frame_ne_fault : frame bytes ≠ .error .fault := by
  refine reader_bind_ne_error long_ne_fault fun _ _ _ => ?_
  refine reader_bind_ne_error byte_ne_fault fun _ _ _ => ?_
  refine reader_bind_ne_error byte_ne_fault fun _ _ _ => ?_
  refine reader_bind_ne_error byte_ne_fault fun _ _ _ => ?_
  split
  · exact nofun
  · refine reader_bind_ne_error wordList_ne_fault fun _ _ _ => ?_
    refine reader_bind_ne_error word_ne_fault fun _ _ _ => ?_
    split
    · exact nofun
    · exact reader_bind_ne_error wordList_ne_fault fun _ _ _ => nofun

theorem frameList_ne_fault {n : Nat} {done : List Frame} :
    frameList done n bytes ≠ .error .fault := by
  induction n generalizing bytes done with
  | zero => exact nofun
  | succ n ih => exact reader_bind_ne_error frame_ne_fault fun _ _ _ => ih

theorem counted_ne_fault : counted bytes ≠ .error .fault := by
  refine reader_bind_ne_error word_ne_fault fun _ _ _ => ?_
  split
  · exact nofun
  · exact frameList_ne_fault

/-- As many frames are read as were counted, and none is not a count, so that the reader never
faults. -/
theorem ofBytes_ne_fault : ofBytes bytes ≠ .error .fault := by
  cases read : counted bytes with
  | error e =>
    rw [ofBytes_of_counted_error read]
    intro eq
    cases eq
    exact counted_ne_fault read
  | ok r =>
    obtain ⟨frames, rest⟩ := r
    obtain ⟨used, list, -⟩ := parses_counted.eq_ok_iff.mp read
    obtain ⟨stack, rfl⟩ := CallStack.exists_toList_eq list.ne_nil
    obtain ⟨outermost, inner, eq, -⟩ := stack.exists_outermost
    rw [ofBytes_of_counted read eq]
    split
    · exact nofun
    · split <;> exact nofun

end Frames

end ZMachine
