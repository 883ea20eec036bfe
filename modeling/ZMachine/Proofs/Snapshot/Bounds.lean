import ZMachine.Proofs.Memory
import ZMachine.Proofs.Operation
import ZMachine.Snapshot.Container
import ZMachine.Snapshot.Difference
import ZMachine.Snapshot.Frames
import ZMachine.Snapshot.Head

/-!
# Saved games are read and written within bounds

The machine goes through the bytes of a saved game by index, and each index, stretch and difference
is checked. Here each part of the format is read and written with no regard to bounds, piece by piece
from the front, and the two give the same (`compress_eq`, `decompress_eq`, `Container.ofBytes_eq`,
`SnapshotHead.ofBytes_eq`): no check ever fails.
-/

namespace ZMachine

namespace Memory

variable {memory : Memory} {start count stop : Nat}

theorem bytes_eq_take_drop (inside : start + count ≤ memory.size) :
    memory.bytes start count = (memory.toList.drop start).take count := by
  refine List.ext_getElem (by simp; omega) fun i _ bound => ?_
  have lt : start + i < memory.size := by
    simp only [List.length_take, List.length_drop, Array.length_toList] at bound
    omega
  simp [bytes, byte, lt]

/-- The bytes up to before `stop` are those of a stretch and those behind it. -/
theorem drop_eq_bytes_append (count : Nat) (before : start + count ≤ stop)
    (inside : stop ≤ memory.size) :
    (memory.toList.take stop).drop start =
      memory.bytes start count ++ (memory.toList.take stop).drop (start + count) := by
  rw [bytes_eq_take_drop (by omega), ← List.drop_drop]
  conv => lhs; rw [← List.take_append_drop count ((memory.toList.take stop).drop start)]
  congr 1
  rw [List.drop_take, List.take_take, Nat.min_eq_left (by omega)]

end Memory

namespace Difference

/-! ### Writing a difference -/

/-- Where two stretches of bytes differ; what goes beyond `pristine` is compared with zeros. -/
def differences (current pristine : List UInt8) : List UInt8 :=
  List.zipWith (· ^^^ ·) current
    (pristine ++ List.replicate (current.length - pristine.length) 0)

/-- The pairs for a number of unchanged bytes. -/
def runPairs (count : Nat) : List UInt8 :=
  if count = 0 then []
  else 0 :: .ofNat (min count longestRun - 1) :: runPairs (count - longestRun)
termination_by count
decreasing_by
  simp only [longestRun]
  omega

/-- Writes differences; `unchanged` counts the zeros just before them. -/
def writeFrom (unchanged : Nat) : List UInt8 → List UInt8
  | [] => runPairs unchanged
  | d :: rest =>
    if d = 0 then writeFrom (unchanged + 1) rest
    else runPairs unchanged ++ d :: writeFrom 0 rest

/-- What a memory is written as. -/
def compressed (current pristine : List UInt8) : List UInt8 :=
  writeFrom 0 (differences current pristine)

variable {current pristine done : Memory}

theorem writeRun_eq (written : Memory) (count : Nat) :
    writeRun written count = .ok (written ++ runPairs count) := by
  rw [writeRun, runPairs]
  by_cases zero : count = 0
  · simp [zero, pure, Except.pure]
  · have positive : 1 ≤ min count longestRun := by
      simp only [longestRun]
      omega
    rw [if_pos (Nat.pos_of_ne_zero zero), if_neg zero, except_bind_of_ok (subtract_of_le positive),
      except_bind_of_ok (subtract_of_le (Nat.min_le_left _ _)), writeRun_eq]
    have left : count - min count longestRun = count - longestRun := by omega
    rw [left]
    simp
termination_by count
decreasing_by
  simp only [longestRun]
  omega

theorem differenceAt_eq {i : Nat} (inside : i < current.size) :
    differenceAt current pristine i = .ok (current.byte i ^^^ pristine.byte i) := by
  rw [differenceAt, except_bind_of_ok (Memory.byteIn_of_lt inside)]
  rfl

@[simp] theorem length_differences (current pristine : List UInt8) :
    (differences current pristine).length = current.length := by
  simp only [differences, List.length_zipWith, List.length_append, List.length_replicate]
  omega

theorem drop_differences {i : Nat} (inside : i < current.size) :
    (differences current.toList pristine.toList).drop i =
      (current.byte i ^^^ pristine.byte i) ::
        (differences current.toList pristine.toList).drop (i + 1) := by
  have bound : i < (differences current.toList pristine.toList).length := by simpa using inside
  rw [List.drop_eq_getElem_cons bound]
  congr 1
  simp only [differences, List.getElem_zipWith, List.getElem_append]
  rw [Memory.byte, ← Array.getElem_eq_getD (h := inside)]
  split
  · next known =>
    rw [Memory.byte, ← Array.getElem_eq_getD (h := known)]
    rfl
  · next beyond =>
    rw [Memory.byte_of_size_le _ (by simpa using beyond), List.getElem_replicate]
    rfl

/-- The writer looks at no place beyond the memory, and the run it counts never begins behind. -/
theorem writeAt_eq {written : Memory} {start i : Nat} (begun : start ≤ i) :
    writeAt current pristine written start i =
      .ok (written ++
        writeFrom (i - start) ((differences current.toList pristine.toList).drop i)) := by
  rw [writeAt]
  split
  · next inside =>
    rw [except_bind_of_ok (differenceAt_eq inside), drop_differences inside, writeFrom]
    split
    · rw [writeAt_eq (Nat.le_succ_of_le begun), Nat.succ_sub begun]
    · rw [except_bind_of_ok (subtract_of_le begun), except_bind_of_ok (writeRun_eq _ _),
        writeAt_eq (Nat.le_refl _), Nat.sub_self]
      simp [← Array.toList_inj]
  · next ended =>
    have none : (differences current.toList pristine.toList).drop i = [] :=
      List.drop_eq_nil_of_le (by simpa using ended)
    rw [except_bind_of_ok (subtract_of_le begun), writeRun_eq, none, writeFrom]
termination_by current.size - i

theorem compress_eq (current pristine : List UInt8) :
    compress current pristine = .ok (compressed current pristine) := by
  rw [compress, except_bind_of_ok (writeAt_eq (Nat.le_refl 0)), compressed]
  simp [pure, Except.pure]

/-! ### Reading a difference -/

/-- Reads a difference from what is left of the pristine bytes; `done` is the memory before them,
last byte first. -/
def expandFrom (done : List UInt8) :
    List UInt8 → List UInt8 → Except MachineError (List UInt8)
  | [], pristine => .ok (done.reverse ++ pristine)
  | b :: compressed, pristine =>
    if b = 0 then
      match compressed with
      | [] => .error (.badSnapshot .incompleteRun)
      | n :: compressed =>
        let run := pristine.take (n.toNat + 1)
        if run.length < n.toNat + 1 then .error (.badSnapshot .runTooLong)
        else expandFrom (run.reverse ++ done) compressed (pristine.drop (n.toNat + 1))
    else
      match pristine with
      | [] => .error (.badSnapshot .tooMuchMemory)
      | p :: pristine => expandFrom ((p ^^^ b) :: done) compressed pristine

/-- The memory that has been read is never longer than the pristine one, so that what is left of that
can be found. -/
theorem expandAt_eq : ∀ (compressed : List UInt8) (done : Memory), done.size ≤ pristine.size →
    (expandAt pristine done compressed >>= fun memory => pure memory.toList) =
      expandFrom done.toList.reverse compressed (pristine.toList.drop done.size)
  | [], done, fits => by
    rw [expandAt, except_bind_of_ok (Memory.bytesIn_of_le fits (Nat.le_refl _)), expandFrom,
      Memory.bytes_eq_take_drop (by omega)]
    have all : (pristine.toList.drop done.size).length ≤ pristine.size - done.size := by simp
    rw [List.take_of_length_le all]
    simp [pure, Except.pure, bind, Except.bind]
  | b :: compressed, done, fits => by
    rw [expandAt.eq_def, expandFrom.eq_def]
    dsimp only
    split
    · match compressed with
      | [] => rfl
      | more :: compressed =>
        have left : (pristine.toList.drop done.size).length = pristine.size - done.size := by simp
        dsimp only
        rw [List.length_take, left]
        split
        · next long =>
          rw [if_pos (by omega)]
          rfl
        · next enough =>
          have inside : done.size + (more.toNat + 1) ≤ pristine.size := Nat.le_of_not_lt enough
          rw [if_neg (by omega),
            except_bind_of_ok (Memory.bytesIn_of_le (Nat.le_add_right _ _) inside),
            Nat.add_sub_cancel_left, Memory.bytes_eq_take_drop inside]
          have length : (done ++ (pristine.toList.drop done.size).take (more.toNat + 1)).size =
              done.size + (more.toNat + 1) := by
            rw [← Array.length_toList, Array.toList_appendList, List.length_append,
              List.length_take, left, Array.length_toList]
            omega
          rw [expandAt_eq compressed _ (by rw [length]; exact inside), length, List.drop_drop]
          simp
    · by_cases inside : done.size < pristine.size
      · have cons : pristine.toList.drop done.size =
            pristine[done.size] :: pristine.toList.drop (done.size + 1) :=
          List.drop_eq_getElem_cons inside
        rw [Array.getElem?_eq_getElem inside, cons]
        dsimp only
        rw [expandAt_eq compressed _ (by rw [Array.size_push]; exact inside), Array.size_push]
        simp
      · rw [Array.getElem?_eq_none (Nat.le_of_not_lt inside),
          List.drop_eq_nil_of_le (Nat.le_of_not_lt inside)]
        rfl

theorem decompress_eq (compressed pristine : List UInt8) :
    decompress compressed pristine = expandFrom [] compressed pristine :=
  expandAt_eq compressed #[] (Nat.zero_le _)

end Difference

namespace Container

/-- The chunks that fill a stretch of bytes. -/
def readChunks : List UInt8 → Except MachineError (List Chunk)
  | [] => .ok []
  | a :: b :: c :: d :: l₁ :: l₂ :: l₃ :: l₄ :: rest => do
    let length := Word.long l₁ l₂ l₃ l₄
    if rest.length < length then throw (.badSnapshot (.truncated .chunkData))
    else
      let chunks ← readChunks (rest.drop (length + length % 2))
      pure ({ id := [a, b, c, d], data := rest.take length } :: chunks)
  | _ => .error (.badSnapshot (.truncated .chunkHeader))
termination_by bytes => bytes.length
decreasing_by
  simp only [List.length_drop, List.length_cons]
  omega

theorem readChunks_of_short {bytes : List UInt8} (ne : bytes ≠ []) (short : bytes.length < 8) :
    readChunks bytes = .error (.badSnapshot (.truncated .chunkHeader)) := by
  rw [readChunks.eq_def]
  split
  · exact absurd rfl ne
  · simp only [List.length_cons] at short
    omega
  · rfl

variable {bytes : Memory} {stop : Nat}

/-- A chunk ends where the chunks end or before, so that nothing of it lies behind. -/
theorem readChunksAt_eq (inside : stop ≤ bytes.size) (offset : Nat) :
    readChunksAt bytes stop offset = readChunks ((bytes.toList.take stop).drop offset) := by
  have length (k : Nat) : ((bytes.toList.take stop).drop k).length = stop - k := by
    simp
    omega
  rw [readChunksAt]
  split
  · next more =>
    split
    · next short =>
      refine (readChunks_of_short (fun none => ?_) (by rw [length]; omega)).symm
      have := length offset
      rw [none, List.length_nil] at this
      omega
    · next whole =>
      rw [Memory.drop_eq_bytes_append 8 (by omega) inside,
        except_bind_of_ok (Memory.bytesIn_of_le (by omega) (by omega)),
        except_bind_of_ok (Memory.longIn_of_lt (by omega)), Nat.add_sub_cancel_left]
      have eight : bytes.bytes offset 8 = [bytes.byte offset, bytes.byte (offset + 1),
        bytes.byte (offset + 2), bytes.byte (offset + 3), bytes.byte (offset + 4),
        bytes.byte (offset + 4 + 1), bytes.byte (offset + 4 + 2), bytes.byte (offset + 4 + 3)] := rfl
      have four : bytes.bytes offset 4 = [bytes.byte offset, bytes.byte (offset + 1),
        bytes.byte (offset + 2), bytes.byte (offset + 3)] := rfl
      rw [eight, four]
      simp only [List.cons_append, List.nil_append, readChunks]
      generalize Word.long _ _ _ _ = size
      rw [length]
      split
      · rw [if_pos (by omega)]
      · next fits =>
        have data : bytes.bytes (offset + 8) size =
            ((bytes.toList.take stop).drop (offset + 8)).take size := by
          rw [Memory.drop_eq_bytes_append size (by omega) inside,
            List.take_left' (Memory.length_bytes _ _ _)]
        rw [if_neg (by omega), except_bind_of_ok (Memory.bytesIn_of_le (by omega) (by omega)),
          Nat.add_sub_cancel_left, data, List.drop_drop, readChunksAt_eq inside,
          ← Nat.add_assoc]
  · next ended =>
    rw [List.drop_eq_nil_of_le (by simp; omega), readChunks]
termination_by stop - offset

theorem ofBytes_of_length_lt {bytes : List UInt8} (short : bytes.length < 12) :
    ofBytes bytes = .error (.badSnapshot (.truncated .header)) := by
  rw [ofBytes]
  exact if_pos short

theorem ofBytes_eq (a b c d l₁ l₂ l₃ l₄ t₁ t₂ t₃ t₄ : UInt8) (rest : List UInt8) :
    ofBytes (a :: b :: c :: d :: l₁ :: l₂ :: l₃ :: l₄ :: t₁ :: t₂ :: t₃ :: t₄ :: rest) =
      let length := Word.long l₁ l₂ l₃ l₄
      if [a, b, c, d] ≠ magic then .error (.badSnapshot .notContainer)
      else if rest.length + 4 < length ∨ length < 4 then .error (.badSnapshot (.truncated .body))
      else readChunks (rest.take (length - 4)) >>= fun chunks =>
        .ok { formType := [t₁, t₂, t₃, t₄], chunks } := by
  generalize bytes_eq : a :: b :: c :: d :: l₁ :: l₂ :: l₃ :: l₄ :: t₁ :: t₂ :: t₃ :: t₄ :: rest =
    bytes
  have size : bytes.toArray.size = rest.length + 12 := by rw [← bytes_eq]; rfl
  have first : Memory.bytes bytes.toArray 0 4 = [a, b, c, d] := by rw [← bytes_eq]; rfl
  have length : Memory.longIn bytes.toArray 4 = .ok (Word.long l₁ l₂ l₃ l₄) := by
    rw [Memory.longIn_of_lt (by omega), ← bytes_eq]
    rfl
  have type : Memory.bytes bytes.toArray 8 4 = [t₁, t₂, t₃, t₄] := by rw [← bytes_eq]; rfl
  rw [ofBytes]
  dsimp only
  rw [if_neg (by omega), except_bind_of_ok (Memory.bytesIn_of_le (by omega) (by omega)),
    Nat.sub_zero, first]
  split
  · rfl
  · rw [except_bind_of_ok length]
    generalize Word.long l₁ l₂ l₃ l₄ = length
    rw [size]
    by_cases cut : rest.length + 4 < length ∨ length < 4
    · rw [if_pos cut, if_pos (by omega)]
      rfl
    · rw [if_neg cut, if_neg (by omega),
        except_bind_of_ok (Memory.bytesIn_of_le (by omega) (by omega)),
        readChunksAt_eq (by omega)]
      have behind : (bytes.take (8 + length)).drop 12 = rest.take (length - 4) := by
        rw [List.drop_take, ← bytes_eq]
        congr 1
        omega
      rw [behind, show 12 - 8 = 4 from rfl, type]
      rfl

end Container

namespace ResumePoint

/-- The resume point of a tag and the two words behind it. -/
def ofTag (tag : UInt8) (text parse : UInt16) : Except MachineError ResumePoint :=
  if tag = 0 then .ok atPc
  else if tag = 1 then .ok saveInstruction
  else if tag = 2 then .ok (awaitingInput text parse)
  else .error (.badSnapshot (.resumePoint tag.toNat))

theorem read_eq {bytes : Memory} {address : Nat} (inside : address + 4 < bytes.size) :
    read bytes address =
      ofTag (bytes.byte address) (bytes.word (address + 1)) (bytes.word (address + 3)) := by
  rw [read, except_bind_of_ok (Memory.byteIn_of_lt (by omega)), ofTag]
  split
  · rfl
  · split
    · rfl
    · split
      · rw [except_bind_of_ok (Memory.wordIn_of_lt (by omega)),
          except_bind_of_ok (Memory.wordIn_of_lt inside)]
        rfl
      · rfl

end ResumePoint

namespace SnapshotHead

theorem ofBytes_eq (version r₁ r₂ s₁ s₂ s₃ s₄ s₅ s₆ c₁ c₂ p₁ p₂ p₃ p₄ tag t₁ t₂ q₁ q₂ : UInt8)
    (rest : List UInt8) :
    ofBytes (version :: r₁ :: r₂ :: s₁ :: s₂ :: s₃ :: s₄ :: s₅ :: s₆ :: c₁ :: c₂ :: p₁ :: p₂ ::
        p₃ :: p₄ :: tag :: t₁ :: t₂ :: q₁ :: q₂ :: rest) =
      ResumePoint.ofTag tag (Word.ofBytes t₁ t₂) (Word.ofBytes q₁ q₂) >>= fun resume =>
        .ok
          { version
            release := Word.ofBytes r₁ r₂
            serial := [s₁, s₂, s₃, s₄, s₅, s₆]
            checksum := Word.ofBytes c₁ c₂
            pc := Word.long p₁ p₂ p₃ p₄
            resume } := by
  generalize bytes_eq : version :: r₁ :: r₂ :: s₁ :: s₂ :: s₃ :: s₄ :: s₅ :: s₆ :: c₁ :: c₂ ::
    p₁ :: p₂ :: p₃ :: p₄ :: tag :: t₁ :: t₂ :: q₁ :: q₂ :: rest = bytes
  have long : bytes.toArray.size = rest.length + 20 := by rw [← bytes_eq]; rfl
  rw [ofBytes]
  rw [if_neg (by rw [long, size]; omega),
    except_bind_of_ok (Memory.bytesIn_of_le (by omega) (by omega)),
    except_bind_of_ok (Memory.longIn_of_lt (by omega)), ResumePoint.read_eq (by omega),
    Memory.byteIn_of_lt (by omega), Memory.wordIn_of_lt (by omega), Memory.wordIn_of_lt (by omega),
    ← bytes_eq]
  rfl

end SnapshotHead

namespace Frames

/-! ### Frames

What `take` gives is as long as has been asked for. -/

theorem byte_eq (bytes : List UInt8) :
    byte bytes =
      match bytes with
      | b :: rest => .ok (b, rest)
      | [] => truncated := by
  cases bytes <;> rfl

theorem word_eq (bytes : List UInt8) :
    word bytes =
      match bytes with
      | a :: b :: rest => .ok (Word.ofBytes a b, rest)
      | _ => truncated := by
  match bytes with
  | [] | [_] | _ :: _ :: _ => rfl

theorem long_eq (bytes : List UInt8) :
    long bytes =
      match bytes with
      | a :: b :: c :: d :: rest => .ok (Word.long a b c d, rest)
      | _ => truncated := by
  match bytes with
  | [] | [_] | [_, _] | [_, _, _] | _ :: _ :: _ :: _ :: _ => rfl

end Frames

end ZMachine
