import ZMachine.Proofs.Instruction.Reading
import ZMachine.Proofs.Snapshot.Difference
import ZMachine.Proofs.Snapshot.Frames
import ZMachine.Proofs.Snapshot.Head
import ZMachine.Snapshot.Basic

/-!
# Saved games read back

A snapshot that has been read fits the story (`Snapshot.Fits`): it has as much dynamic memory as the
story, its frames are within the limits, and its program counter is in memory; and its head says
that it belongs to the story (`Snapshot.Belongs`). Any such snapshot is read back from its bytes by
every machine for the same story (`Snapshot.Fits.ofBytes_toBytes`), and putting a machine into the
state of a snapshot that fits cannot fail.
-/

namespace ZMachine

namespace Memory

theorem ext {a b : Memory} (size : a.size = b.size) (bytes : ∀ i, a.byte i = b.byte i) : a = b := by
  refine Array.ext size fun i ha hb => ?_
  have eq := bytes i
  simpa [byte, Array.getD_eq_getD_getElem?, ha, hb] using eq

/-- The bytes of memory below an address inside it. -/
theorem getElem_toList_extract {memory : Memory} {address i : Nat}
    (h : i < (memory.extract 0 address).toList.length) :
    (memory.extract 0 address).toList[i] = memory.byte i := by
  rw [Array.length_toList, Array.size_extract] at h
  have inside : i < memory.size := by omega
  simp [byte, Array.getD_eq_getD_getElem?, inside]

/-- Bytes in front of what is behind as many in another memory. -/
theorem byte_append_extract (front : List UInt8) (memory : Memory) (i : Nat)
    (le : front.length ≤ memory.size) :
    byte (front.toArray ++ memory.extract front.length memory.size) i =
      if h : i < front.length then front[i] else memory.byte i := by
  simp only [byte, Array.getD_eq_getD_getElem?]
  split
  · next inside => rw [Array.getElem?_append_left (by simpa using inside)]; simp [inside]
  · next outside =>
    rw [Array.getElem?_append_right (by simpa using outside)]
    rw [Array.getElem?_extract]
    have index : front.length + (i - front.toArray.size) = i := by
      rw [List.size_toArray]
      omega
    rw [index]
    split
    · rfl
    · next far =>
      rw [List.size_toArray] at far
      rw [Array.getElem?_eq_none (by omega)]

end Memory

namespace Snapshot

variable {story : Story} {m : Machine} {s : Snapshot} {bytes : List UInt8}

/-- The snapshot could have been made by a machine for the story. -/
structure Fits (story : Story) (s : Snapshot) : Prop where
  length_eq : s.dynamicMemory.length = story.dynamicSize
  frames : s.frames.Sound
  pc_lt : s.head.pc < Machine.addressLimit
  pc_inside : s.head.pc < story.image.size

/-- The head says that the game belongs to the story. -/
def Belongs (story : Story) (s : Snapshot) : Prop :=
  s.head = headFor story s.head.pc s.head.resume

theorem below_eq {address : Nat} {memory : Memory} (h : address ≤ memory.size) :
    below address memory = .ok (memory.extract 0 address).toList := by
  rw [below, if_neg (Nat.not_lt.mpr h)]

theorem pristine_eq (hs : story.Sound) :
    pristine story = .ok (story.image.extract 0 story.dynamicSize).toList :=
  below_eq hs.dynamic_le

theorem pc_lt_of_ofBytes {head : SnapshotHead} (h : SnapshotHead.ofBytes bytes = .ok head) :
    head.pc < Machine.addressLimit := by
  simp only [SnapshotHead.ofBytes] at h
  split at h
  · cases h
  · next whole =>
    simp only [SnapshotHead.size] at whole
    obtain ⟨serial, -, h⟩ := except_bind_eq_ok.mp h
    rw [except_bind_of_ok (Memory.longIn_of_lt (by omega))] at h
    obtain ⟨resume, -, h⟩ := except_bind_eq_ok.mp h
    obtain ⟨version, -, h⟩ := except_bind_eq_ok.mp h
    obtain ⟨release, -, h⟩ := except_bind_eq_ok.mp h
    obtain ⟨checksum, -, h⟩ := except_bind_eq_ok.mp h
    cases h
    exact Container.long_lt _ _ _ _

theorem checkHead_eq_ok {head : SnapshotHead} (h : checkHead head m = .ok ()) :
    head = headFor m.story head.pc head.resume ∧ head.pc < m.memory.size := by
  simp only [checkHead] at h
  split at h
  · cases h
  · next version =>
    split at h
    · cases h
    · next same =>
      split at h
      · cases h
      · next inside =>
        simp only [not_or, ne_eq, Decidable.not_not] at version same
        obtain ⟨release, serial, checksum⟩ := same
        refine ⟨?_, Nat.lt_of_not_le inside⟩
        rw [headFor, ← version, ← release, ← serial, ← checksum]

/-- What has been read could have been made by the machine's story. -/
theorem valid_of_ofBytes (hs : story.Sound) (hm : m.Plays story) (h : ofBytes bytes m = .ok s) :
    s.Fits story ∧ s.Belongs story := by
  obtain ⟨container, -, h⟩ := except_bind_eq_ok.mp h
  split at h
  · cases h
  · obtain ⟨headData, -, h⟩ := except_bind_eq_ok.mp h
    obtain ⟨head, headRead, h⟩ := except_bind_eq_ok.mp h
    obtain ⟨⟨⟩, checked, h⟩ := except_bind_eq_ok.mp h
    obtain ⟨memoryData, -, h⟩ := except_bind_eq_ok.mp h
    obtain ⟨original, originalRead, h⟩ := except_bind_eq_ok.mp h
    obtain ⟨dynamicMemory, memoryRead, h⟩ := except_bind_eq_ok.mp h
    obtain ⟨framesData, -, h⟩ := except_bind_eq_ok.mp h
    obtain ⟨frames, framesRead, h⟩ := except_bind_eq_ok.mp h
    cases h
    obtain ⟨same, inside⟩ := checkHead_eq_ok checked
    rw [hm.story_eq] at same originalRead
    rw [hm.size_eq] at inside
    refine ⟨⟨?_, Frames.sound_of_ofBytes framesRead, pc_lt_of_ofBytes headRead, inside⟩, same⟩
    rw [pristine_eq hs] at originalRead
    cases originalRead
    rw [Difference.length_of_decompress memoryRead, Array.length_toList, Array.size_extract]
    have le := hs.dynamic_le
    omega

theorem fits_of_ofBytes (hs : story.Sound) (hm : m.Sound story) (h : ofBytes bytes m = .ok s) :
    s.Fits story :=
  (valid_of_ofBytes hs hm.plays h).1

theorem expandFrom_ne_fault {done compressed pristine : List UInt8} :
    Difference.expandFrom done compressed pristine ≠ .error .fault := by
  fun_induction Difference.expandFrom done compressed pristine with
  | case1 =>
    intro eq
    cases eq
  | case2 =>
    intro eq
    cases eq
  | case3 =>
    intro eq
    cases eq
  | case4 _ _ _ _ _ _ ih => exact ih
  | case5 =>
    intro eq
    cases eq
  | case6 _ _ _ _ _ _ ih => exact ih

/-- A game that is refused is no fault. -/
theorem refused_ne_fault {α : Type} {why : SnapshotFault} :
    (.error (.badSnapshot why) : Except MachineError α) ≠ .error .fault := by
  intro eq
  cases eq

theorem readChunks_ne_fault : Container.readChunks bytes ≠ .error .fault := by
  fun_induction Container.readChunks bytes with
  | case1 => exact nofun
  | case2 => exact refused_ne_fault
  | case3 _ _ _ _ _ _ _ _ _ _ _ ih => exact bind_ne_error ih fun _ _ => nofun
  | case4 => exact nofun

theorem container_ne_fault : Container.ofBytes bytes ≠ .error .fault := by
  simp only [Container.ofBytes]
  split
  · exact refused_ne_fault
  · rw [except_bind_of_ok (Memory.bytesIn_of_le (by omega) (by omega))]
    split
    · exact refused_ne_fault
    · rw [except_bind_of_ok (Memory.longIn_of_lt (by omega))]
      split
      · exact refused_ne_fault
      · rw [except_bind_of_ok (Memory.bytesIn_of_le (by omega) (by omega)),
          Container.readChunksAt_eq (by omega)]
        refine bind_ne_error readChunks_ne_fault fun _ _ eq => ?_
        cases eq

theorem chunk_ne_fault {c : Container} {id : List UInt8} : chunk c id ≠ .error .fault := by
  unfold chunk
  split <;> exact nofun

theorem resumePoint_ne_fault {tag : UInt8} {text parse : UInt16} :
    ResumePoint.ofTag tag text parse ≠ .error .fault := by
  unfold ResumePoint.ofTag
  split
  · exact nofun
  · split
    · exact nofun
    · split <;> exact nofun

theorem head_ne_fault : SnapshotHead.ofBytes bytes ≠ .error .fault := by
  simp only [SnapshotHead.ofBytes]
  split
  · exact refused_ne_fault
  · next whole =>
    simp only [SnapshotHead.size] at whole
    rw [except_bind_of_ok (Memory.bytesIn_of_le (by omega) (by omega)),
      except_bind_of_ok (Memory.longIn_of_lt (by omega)), ResumePoint.read_eq (by omega)]
    refine bind_ne_error resumePoint_ne_fault fun resume _ => ?_
    rw [except_bind_of_ok (Memory.byteIn_of_lt (by omega)),
      except_bind_of_ok (Memory.wordIn_of_lt (by omega)),
      except_bind_of_ok (Memory.wordIn_of_lt (by omega))]
    intro eq
    cases eq

theorem checkHead_ne_fault {head : SnapshotHead} : checkHead head m ≠ .error .fault := by
  simp only [checkHead]
  split
  · exact refused_ne_fault
  · split
    · exact refused_ne_fault
    · split <;> exact nofun

theorem ofBytes_ne_fault (hs : story.Sound) (hm : m.Sound story) :
    ofBytes bytes m ≠ .error .fault := by
  refine bind_ne_error container_ne_fault fun container _ => ?_
  split
  · exact refused_ne_fault
  · refine bind_ne_error chunk_ne_fault fun headData _ => ?_
    refine bind_ne_error head_ne_fault fun head _ => ?_
    refine bind_ne_error checkHead_ne_fault fun _ _ => ?_
    refine bind_ne_error chunk_ne_fault fun memoryData _ => ?_
    refine bind_ne_error ?_ fun original _ => ?_
    · rw [hm.story_eq, pristine_eq hs]
      exact nofun
    · rw [Difference.decompress_eq]
      refine bind_ne_error expandFrom_ne_fault fun dynamicMemory _ => ?_
      refine bind_ne_error chunk_ne_fault fun framesData _ => ?_
      exact bind_ne_error Frames.ofBytes_ne_fault fun _ _ => nofun

/-! ### Snapshots written and read back -/

theorem length_serial (hs : story.Sound) : story.header.serial.length = 6 := by
  rw [hs.header_eq]
  rfl

/-- The form of a snapshot that fits has a length of 32 bits. -/
theorem Fits.sized_toContainer (h : s.Fits story) (hs : story.Sound) (belongs : s.Belongs story)
    (original : List UInt8) :
    (s.toContainer (Difference.compressed s.dynamicMemory original)).Sized where
  formType := rfl
  ids chunk mem := by
    simp only [toContainer, List.mem_cons, List.not_mem_nil, or_false] at mem
    rcases mem with rfl | rfl | rfl <;> rfl
  body := by
    have head : s.head.Sized := ⟨by rw [belongs]; exact length_serial hs, h.pc_lt⟩
    have memory := Difference.length_compressed_le s.dynamicMemory original
    have dynamic : story.dynamicSize < 0x10000 := story.header.staticBase.toNat_lt
    have frames := Frames.length_toBytes_le h.frames
    rw [h.length_eq] at memory
    have headChunk := Container.length_chunkBytes ⟨headId, s.head.toBytes⟩ rfl
    have memoryChunk := Container.length_chunkBytes
      ⟨memoryId, Difference.compressed s.dynamicMemory original⟩ rfl
    have framesChunk := Container.length_chunkBytes ⟨framesId, Frames.toBytes s.frames.toList⟩ rfl
    have type : formType.length = 4 := rfl
    rw [SnapshotHead.length_toBytes head] at headChunk
    dsimp only at memoryChunk framesChunk
    simp only [Container.body, toContainer, List.flatMap_cons, List.flatMap_nil, List.length_append,
      List.length_nil, headChunk, memoryChunk, framesChunk, type]
    simp only [frameLimit, Frames.frameSize, Container.lengthLimit] at frames ⊢
    omega

theorem chunk_toContainer (s : Snapshot) (memory : List UInt8) :
    chunk (s.toContainer memory) headId = .ok s.head.toBytes ∧
      chunk (s.toContainer memory) memoryId = .ok memory ∧
      chunk (s.toContainer memory) framesId = .ok (Frames.toBytes s.frames.toList) :=
  ⟨rfl, rfl, rfl⟩

theorem checkHead_of_belongs (hm : m.Plays story) (belongs : s.Belongs story)
    (inside : s.head.pc < story.image.size) : checkHead s.head m = .ok () := by
  rw [← hm.size_eq] at inside
  have version : s.head.version = formatVersion := by rw [belongs]; rfl
  have release : s.head.release = m.story.header.release := by rw [belongs, hm.story_eq]; rfl
  have serial : s.head.serial = m.story.header.serial := by rw [belongs, hm.story_eq]; rfl
  have checksum : s.head.checksum = m.story.header.checksum := by rw [belongs, hm.story_eq]; rfl
  simp only [checkHead]
  rw [if_neg (by simp [version]), if_neg (by simp [release, serial, checksum]),
    if_neg (Nat.not_le.mpr inside)]

/-- A head with other values than the story's is refused. -/
theorem checkHead_of_differs (belongs : s.Belongs story)
    (differs : m.story.header.release ≠ story.header.release ∨
      m.story.header.serial ≠ story.header.serial ∨
      m.story.header.checksum ≠ story.header.checksum) :
    ∃ why, checkHead s.head m = .error (.badSnapshot why) := by
  have version : s.head.version = formatVersion := by rw [belongs]; rfl
  have release : s.head.release = story.header.release := by rw [belongs]; rfl
  have serial : s.head.serial = story.header.serial := by rw [belongs]; rfl
  have checksum : s.head.checksum = story.header.checksum := by rw [belongs]; rfl
  simp only [checkHead]
  rw [if_neg (by simp [version]), if_pos]
  · exact ⟨_, rfl⟩
  · rw [release, serial, checksum]
    exact differs.imp Ne.symm (Or.imp Ne.symm Ne.symm)

/-- The form of a snapshot that fits is read up to the head's check whatever machine reads it. -/
theorem Fits.ofBytes_toContainer (h : s.Fits story) (hs : story.Sound) (belongs : s.Belongs story)
    (original : List UInt8) (m : Machine) :
    ofBytes (s.toContainer (Difference.compressed s.dynamicMemory original)).toBytes m = (do
      checkHead s.head m
      let pristine ← pristine m.story
      let dynamicMemory ←
        Difference.decompress (Difference.compressed s.dynamicMemory original) pristine
      pure { s with dynamicMemory }) := by
  have serial : s.head.serial.length = 6 := by
    rw [belongs]
    exact length_serial hs
  have container := Container.ofBytes_toBytes_append (h.sized_toContainer hs belongs original) []
  have headRead := SnapshotHead.ofBytes_toBytes_append ⟨serial, h.pc_lt⟩ []
  rw [List.append_nil] at container headRead
  have framesRead := Frames.ofBytes_toBytes h.frames
  obtain ⟨headChunk, memoryChunk, framesChunk⟩ :=
    chunk_toContainer s (Difference.compressed s.dynamicMemory original)
  rw [ofBytes, except_bind_of_ok container, if_neg (by simp [toContainer]),
    except_bind_of_ok headChunk, except_bind_of_ok headRead, memoryChunk, framesChunk]
  simp only [bind, Except.bind, framesRead]

/-- A snapshot that fits is written, and every machine for the story reads it back. -/
theorem Fits.ofBytes_toBytes (h : s.Fits story) (hs : story.Sound) (belongs : s.Belongs story) :
    ∃ bytes, s.toBytes story = .ok bytes ∧ ∀ m, m.Plays story → ofBytes bytes m = .ok s := by
  obtain ⟨original, original_eq⟩ : ∃ l, l = (story.image.extract 0 story.dynamicSize).toList :=
    ⟨_, rfl⟩
  have pristine := pristine_eq hs
  rw [← original_eq] at pristine
  refine ⟨(s.toContainer (Difference.compressed s.dynamicMemory original)).toBytes, ?_,
    fun m hm => ?_⟩
  · rw [toBytes, except_bind_of_ok pristine, except_bind_of_ok (Difference.compress_eq _ _)]
    rfl
  have length : original.length = s.dynamicMemory.length := by
    have le := hs.dynamic_le
    rw [original_eq, Array.length_toList, Array.size_extract, h.length_eq]
    omega
  have memoryRead := Difference.decompress_compressed (Nat.le_of_eq length.symm)
  rw [← length, List.drop_length, List.append_nil] at memoryRead
  rw [← hm.story_eq] at pristine
  rw [h.ofBytes_toContainer hs belongs, except_bind_of_ok
    (checkHead_of_belongs hm belongs h.pc_inside), except_bind_of_ok pristine,
    except_bind_of_ok memoryRead]
  rfl

/-! ### Going on in a snapshot -/

theorem Fits.length_le (h : s.Fits story) (hs : story.Sound) (hm : m.Plays story) :
    s.dynamicMemory.length ≤ m.memory.size := by
  rw [h.length_eq, hm.size_eq]
  exact hs.dynamic_le

theorem memoryOver_eq {memory : Memory} (h : s.dynamicMemory.length ≤ memory.size) :
    s.memoryOver memory =
      .ok (s.dynamicMemory.toArray ++ memory.extract s.dynamicMemory.length memory.size) := by
  rw [memoryOver, if_neg (Nat.not_lt.mpr h)]

/-- The machine in the state of a snapshot that fits. -/
def appliedTo (s : Snapshot) (m : Machine) : Machine :=
  { m with
    memory := s.dynamicMemory.toArray ++ m.memory.extract s.dynamicMemory.length m.memory.size
    frames := s.frames
    pc := s.head.pc }

theorem apply_eq (h : s.dynamicMemory.length ≤ m.memory.size) :
    s.apply m = .ok () (s.appliedTo m) := by
  rw [apply, memoryOver_eq h]
  rfl

theorem Fits.plays_appliedTo (h : s.Fits story) (hs : story.Sound) (hm : m.Plays story) :
    (s.appliedTo m).Plays story where
  story_eq := hm.story_eq
  size_eq := by
    have le := h.length_le hs hm
    rw [← hm.size_eq, appliedTo, Array.size_append, List.size_toArray, Array.size_extract]
    omega

theorem Fits.sound_appliedTo (h : s.Fits story) (hs : story.Sound) (hm : m.Sound story) :
    (s.appliedTo m).Sound story where
  story_eq := hm.story_eq
  size_eq := (h.plays_appliedTo hs hm.plays).size_eq
  static address le := by
    rw [appliedTo, Memory.byte_append_extract _ _ _ (h.length_le hs hm.plays), dif_neg,
      hm.static _ le]
    rw [h.length_eq]
    exact Nat.not_lt.mpr le
  pc_lt := h.pc_lt
  frames := h.frames

/-- A save instruction that has been found is one, is where the head says, and does not return from
the outermost frame. -/
theorem saveInstruction_eq_ok {inst : Instruction} (h : s.saveInstruction m = .ok inst) :
    ∃ memory, s.memoryOver m.memory = .ok memory ∧
      Instruction.decode memory s.head.pc m.story.header.abbreviations.toNat = .ok inst ∧
      inst.opcode = .save ∧ (returnsOnSuccess inst.branch → s.frames.depth ≠ 0) ∧
      s.head.pc + inst.size < Machine.addressLimit := by
  obtain ⟨memory, composed, h⟩ := except_bind_eq_ok.mp h
  obtain ⟨inst', decoded, h⟩ := except_bind_eq_ok.mp h
  split at h
  · cases h
  · next save =>
    split at h
    · cases h
    · next returns =>
      obtain ⟨next, fits, h⟩ := except_bind_eq_ok.mp h
      cases h
      refine ⟨memory, composed, decoded, Decidable.not_not.mp save, fun ret zero => ?_, ?_⟩
      · exact returns ⟨ret, zero⟩
      · exact (sized_eq_ok.mp fits).1

theorem saveInstruction_of_ok {inst : Instruction} {memory : Memory}
    (composed : s.memoryOver m.memory = .ok memory)
    (decoded : Instruction.decode memory s.head.pc m.story.header.abbreviations.toNat = .ok inst)
    (save : inst.opcode = .save) (returns : returnsOnSuccess inst.branch → s.frames.depth ≠ 0)
    (short : s.head.pc + inst.size < Machine.addressLimit) : s.saveInstruction m = .ok inst := by
  have stays : ¬ (returnsOnSuccess inst.branch = true ∧ s.frames.depth = 0) :=
    fun ⟨ret, zero⟩ => returns ret zero
  have fits : sized 32 (s.head.pc + inst.size) = .ok (s.head.pc + inst.size) :=
    sized_eq_ok.mpr ⟨short, rfl⟩
  simp only [saveInstruction, composed, decoded, bind, Except.bind, save, ne_eq, not_true_eq_false,
    if_false, if_neg stays, fits]
  rfl

theorem saveInstruction_ne_fault (h : s.Fits story) (hs : story.Sound) (hm : m.Sound story)
    (small : story.image.size < Machine.imageLimit) : s.saveInstruction m ≠ .error .fault := by
  have composed := memoryOver_eq (h.length_le hs hm.plays)
  have size := (h.sound_appliedTo hs hm).size_eq
  refine bind_ne_error (by rw [composed]; exact nofun) fun memory found => ?_
  rw [composed] at found
  cases found
  refine bind_ne_error Instruction.decode_ne_fault fun inst decoded => ?_
  have inside := (Instruction.add_size_le decoded).2
  simp only [appliedTo] at size
  rw [size] at inside
  simp only [Machine.imageLimit] at small
  split
  · exact nofun
  · split
    · exact nofun
    · refine bind_ne_error (fun failed => ?_) fun _ _ => nofun
      have large := sized_eq_error failed
      omega

theorem unfinished_ne_fault (h : s.Fits story) (hs : story.Sound) (hm : m.Sound story)
    (small : story.image.size < Machine.imageLimit) : s.unfinished m ≠ .error .fault := by
  rw [unfinished]
  split
  · exact bind_ne_error (saveInstruction_ne_fault h hs hm small) fun _ _ => nofun
  · exact nofun

theorem unfinished_eq_some {inst : Instruction} (h : s.unfinished m = .ok (some inst)) :
    s.head.resume = .saveInstruction ∧ s.saveInstruction m = .ok inst := by
  unfold unfinished at h
  split at h
  · next eq =>
    obtain ⟨inst', found, h⟩ := except_bind_eq_ok.mp h
    cases h
    exact ⟨eq, found⟩
  · cases h

/-! ### Snapshots of machines -/

/-- The snapshot of a machine that is to go on at `pc`. -/
def taken (m : Machine) (pc : Nat) (resume : ResumePoint) : Snapshot where
  head := headFor m.story pc resume
  dynamicMemory := (m.memory.extract 0 m.dynamicSize).toList
  frames := m.frames

variable {pc : Nat} {resume : ResumePoint}

theorem length_taken (hs : story.Sound) (hm : m.Plays story) :
    (taken m pc resume).dynamicMemory.length = story.dynamicSize := by
  have le := hm.dynamic_le hs
  rw [taken, Array.length_toList, Array.size_extract, ← hm.dynamicSize_eq]
  omega

theorem capture_eq (hs : story.Sound) (hm : m.Plays story) :
    capture m pc resume = .ok (taken m pc resume) :=
  except_bind_of_ok (below_eq (hm.dynamic_le hs))

theorem fits_taken (hs : story.Sound) (hm : m.Plays story) (frames : m.frames.Sound)
    (short : pc < Machine.addressLimit) (inside : pc < story.image.size) :
    (taken m pc resume).Fits story :=
  ⟨length_taken hs hm, frames, short, inside⟩

theorem belongs_taken (hm : m.Plays story) : (taken m pc resume).Belongs story := by
  rw [Belongs, taken, hm.story_eq]
  rfl

/-- The saved memory in front of the static memory of any machine for the story is the memory that
has been saved. -/
theorem memoryOver_taken {n : Machine} (hs : story.Sound) (hm : m.Sound story)
    (hn : n.Sound story) : (taken m pc resume).memoryOver n.memory = .ok m.memory := by
  have length : (taken m pc resume).dynamicMemory.length = story.dynamicSize :=
    length_taken hs hm.plays
  have le : (taken m pc resume).dynamicMemory.length ≤ n.memory.size := by
    rw [length, hn.size_eq]
    exact hs.dynamic_le
  rw [memoryOver_eq le]
  refine congrArg Except.ok (Memory.ext ?_ fun i => ?_)
  · rw [Array.size_append, List.size_toArray, Array.size_extract, hm.size_eq, ← hn.size_eq]
    omega
  · rw [Memory.byte_append_extract _ _ _ le]
    split
    · exact Memory.getElem_toList_extract _
    · next outside =>
      rw [length, Nat.not_lt] at outside
      rw [hn.static i outside, hm.static i outside]

theorem memory_appliedTo_taken {n : Machine} (hs : story.Sound) (hm : m.Sound story)
    (hn : n.Sound story) : ((taken m pc resume).appliedTo n).memory = m.memory := by
  have composed : (taken m pc resume).memoryOver n.memory = .ok m.memory :=
    memoryOver_taken hs hm hn
  have le : (taken m pc resume).dynamicMemory.length ≤ n.memory.size := by
    rw [length_taken hs hm.plays, hn.size_eq]
    exact hs.dynamic_le
  rw [memoryOver_eq le] at composed
  exact Except.ok.inj composed

end Snapshot

end ZMachine
