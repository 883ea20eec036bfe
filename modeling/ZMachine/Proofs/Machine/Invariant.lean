import ZMachine.Machine.Routine
import ZMachine.Proofs.Machine.Write

/-!
# The invariant of a machine

A story that has been loaded has room for its header and for its dynamic memory (`Story.Sound`). A
machine for it keeps the story and the length of memory, never changes static memory, has a program
counter of 32 bits, and a call stack within the limits that saved games can describe
(`Machine.Sound`).
-/

namespace ZMachine

/-- The header is that of the image, and the dynamic memory begins with it and lies in the image. -/
structure Story.Sound (story : Story) : Prop where
  header_eq : story.header = Header.ofMemory story.image
  header_le : Header.length ≤ story.dynamicSize
  dynamic_le : story.dynamicSize ≤ story.image.size

structure Frame.Sound (f : Frame) : Prop where
  locals_le : f.locals.length ≤ localsLimit
  stack_le : f.stack.length ≤ stackLimit
  returnPc_lt : f.returnPc < Machine.addressLimit

/-- Frames that a saved game counts at most. -/
def frameLimit : Nat := 0xFFFF

/-- All frames are within the limits, the outermost one has no locals, and a saved game can count
them. -/
structure CallStack.Sound (stack : CallStack) : Prop where
  frames : ∀ f ∈ stack.innermost :: stack.callers, f.Sound
  outermost : ∀ f, (stack.innermost :: stack.callers).getLast? = some f → f.locals = []
  count_le : stack.depth + 1 ≤ frameLimit

/-- The machine is for the story, and its memory has the length of the image. Nothing is said of
what the memory holds, nor of the frames. -/
structure Machine.Plays (story : Story) (m : Machine) : Prop where
  story_eq : m.story = story
  size_eq : m.memory.size = story.image.size

structure Machine.Sound (story : Story) (m : Machine) : Prop where
  story_eq : m.story = story
  size_eq : m.memory.size = story.image.size
  static : ∀ address, story.dynamicSize ≤ address →
    m.memory.byte address = story.image.byte address
  pc_lt : m.pc < Machine.addressLimit
  frames : m.frames.Sound

theorem Story.sound_of_load {image : Memory} {story : Story} (h : Story.load image = .ok story) :
    story.Sound ∧ story.image = image := by
  simp only [Story.load, Header.read_eq] at h
  split at h
  · cases h
  · split at h
    · cases h
    · next outside =>
      cases h
      rw [not_or, Nat.not_lt, Nat.not_lt] at outside
      exact ⟨⟨rfl, outside.2, outside.1⟩, rfl⟩

theorem Story.load_of_le {image : Memory}
    (dynamic : Header.length ≤ (Header.ofMemory image).staticBase.toNat)
    (inside : (Header.ofMemory image).staticBase.toNat ≤ image.size) :
    Story.load image = .ok { image, header := Header.ofMemory image } := by
  have read : Header.read image = .ok (Header.ofMemory image) := by
    rw [Header.read_eq, if_neg (by omega), if_neg (by omega)]
  exact except_bind_of_ok read

namespace CallStack

/-- Any frames but none are those of a stack. -/
theorem exists_toList_eq {frames : List Frame} (some : frames ≠ []) :
    ∃ stack : CallStack, stack.toList = frames := by
  obtain ⟨innermost, callers, eq⟩ := List.exists_cons_of_ne_nil (List.reverse_ne_nil_iff.mpr some)
  exact ⟨⟨innermost, callers⟩, by rw [toList, ← eq, List.reverse_reverse]⟩

/-- The outermost frame is the first of the list. -/
theorem exists_outermost (stack : CallStack) : ∃ outermost inner,
    stack.toList = outermost :: inner ∧
      (stack.innermost :: stack.callers).getLast? = some outermost := by
  cases listed : stack.toList with
  | nil => cases List.reverse_eq_nil_iff.mp listed
  | cons outermost inner =>
    refine ⟨outermost, inner, rfl, ?_⟩
    rw [List.getLast?_eq_head?_reverse, ← toList, listed, List.head?_cons]

theorem length_toList (stack : CallStack) : stack.toList.length = stack.depth + 1 := by
  simp [toList, depth]

theorem mem_toList {stack : CallStack} {f : Frame} :
    f ∈ stack.toList ↔ f ∈ stack.innermost :: stack.callers :=
  List.mem_reverse

theorem sound_topLevel : topLevel.Sound where
  frames f mem := by
    obtain rfl := List.mem_singleton.mp mem
    exact ⟨Nat.zero_le _, Nat.zero_le _, by decide⟩
  outermost f last := by
    cases last
    rfl
  count_le := by decide

variable {stack : CallStack} {f : Frame}

/-- The innermost frame may change within the limits; the outermost one gets no locals. -/
theorem Sound.replace_innermost (h : stack.Sound) (hf : f.Sound)
    (empty : stack.innermost.locals = [] → f.locals = []) :
    ({ stack with innermost := f } : CallStack).Sound where
  frames g mem := by
    rcases List.mem_cons.mp mem with rfl | mem
    · exact hf
    · exact h.frames g (List.mem_cons_of_mem _ mem)
  outermost g last := by
    have old := h.outermost
    cases callers : stack.callers with
    | nil =>
      simp only [callers, List.getLast?_singleton, Option.some.injEq] at last old
      subst last
      exact empty (old _ rfl)
    | cons caller rest =>
      simp only [callers, List.getLast?_cons_cons] at last old
      exact old g last
  count_le := h.count_le

/-- A routine may be entered as long as the frames can be counted. -/
theorem Sound.enter (h : stack.Sound) (hf : f.Sound) (count : stack.depth + 2 ≤ frameLimit) :
    ({ innermost := f, callers := stack.innermost :: stack.callers } : CallStack).Sound where
  frames g mem := by
    rcases List.mem_cons.mp mem with rfl | mem
    · exact hf
    · exact h.frames g mem
  outermost g last := by
    simp only [List.getLast?_cons_cons] at last
    exact h.outermost g last
  count_le := count

theorem Sound.leave {caller : Frame} {callers : List Frame} (h : stack.Sound)
    (eq : stack.callers = caller :: callers) :
    ({ innermost := caller, callers } : CallStack).Sound where
  frames g mem := h.frames g (by rw [eq]; exact List.mem_cons_of_mem _ mem)
  outermost g last := h.outermost g (by rw [eq, List.getLast?_cons_cons]; exact last)
  count_le := by
    have count := h.count_le
    simp only [depth, eq, List.length_cons] at count ⊢
    omega

end CallStack

namespace Machine

variable {story : Story} {m : Machine} {address : Nat} {value : UInt8}

theorem sound_start (story : Story) : (start story).Sound story where
  story_eq := rfl
  size_eq := rfl
  static _ _ := rfl
  pc_lt := by
    have pc := story.header.initialPc.toNat_lt
    simp only [start, addressLimit]
    omega
  frames := CallStack.sound_topLevel

theorem Plays.dynamicSize_eq (h : m.Plays story) : m.dynamicSize = story.dynamicSize := by
  rw [dynamicSize, h.story_eq]

theorem Plays.dynamic_le (h : m.Plays story) (hs : story.Sound) :
    m.dynamicSize ≤ m.memory.size := by
  rw [h.dynamicSize_eq, h.size_eq]
  exact hs.dynamic_le

theorem Sound.plays (h : m.Sound story) : m.Plays story :=
  ⟨h.story_eq, h.size_eq⟩

theorem Sound.dynamicSize_eq (h : m.Sound story) : m.dynamicSize = story.dynamicSize :=
  h.plays.dynamicSize_eq

theorem Sound.withByte (h : m.Sound story) (dynamic : address < story.dynamicSize) :
    (m.withByte address value).Sound story where
  story_eq := h.story_eq
  size_eq := by rw [Machine.withByte, Memory.size_put, h.size_eq]
  static other le := by
    rw [Machine.withByte, Memory.byte_put, if_neg (by omega)]
    exact h.static other le
  pc_lt := h.pc_lt
  frames := h.frames

theorem Sound.withInnermost {f : Frame} (h : m.Sound story) (hf : f.Sound)
    (empty : m.frames.innermost.locals = [] → f.locals = []) :
    ({ m with frames := { m.frames with innermost := f } } : Machine).Sound story :=
  { h with frames := h.frames.replace_innermost hf empty }

theorem Sound.innermost (h : m.Sound story) : m.frames.innermost.Sound :=
  h.frames.frames _ List.mem_cons_self

end Machine

end ZMachine
