import ZMachine.Proofs.Snapshot.Basic

/-!
# The format of saved games

What a machine saves is read back by every machine for the same story, and by no other; a saved game
that has been cut short is refused. Whatever is accepted as a saved game, also if no machine has
written it, is a state that a machine can be put into and save again (`readBack_of_loaded`).
-/

namespace ZMachine.Snapshot

variable {story : Story} {m : Machine} {s : Snapshot}

/-- The identity of the story differs in one of its parts. -/
def OtherStory (a b : Header) : Prop :=
  a.release ≠ b.release ∨ a.serial ≠ b.serial ∨ a.checksum ≠ b.checksum

/-- A machine that has been put into the state of a snapshot takes that snapshot. -/
theorem Fits.taken_appliedTo (h : s.Fits story) (belongs : s.Belongs story) (hm : m.Plays story) :
    taken (s.appliedTo m) s.head.pc s.head.resume = s := by
  have size : (s.appliedTo m).dynamicSize = s.dynamicMemory.length := by
    rw [h.length_eq, ← hm.dynamicSize_eq]
    rfl
  have head : headFor (s.appliedTo m).story s.head.pc s.head.resume = s.head := by
    rw [belongs, ← hm.story_eq]
    rfl
  have memory : ((s.appliedTo m).memory.extract 0 (s.appliedTo m).dynamicSize).toList =
      s.dynamicMemory := by
    rw [size, appliedTo]
    simp
  rw [taken, head, memory]
  rfl

/-- The bytes of a snapshot that fits are refused as soon as one is missing at the end. -/
theorem Fits.refused_of_prefix (h : s.Fits story) (hs : story.Sound) (belongs : s.Belongs story)
    {bytes front : List UInt8} (written : s.toBytes story = .ok bytes) (front_of : front <+: bytes)
    (ne : front ≠ bytes) (n : Machine) : ∃ why, ofBytes front n = .error (.badSnapshot why) := by
  obtain ⟨original, -, written⟩ := except_bind_eq_ok.mp written
  rw [except_bind_of_ok (Difference.compress_eq _ _)] at written
  cases written
  have sized := h.sized_toContainer hs belongs original
  obtain ⟨part, cut⟩ := Container.ofBytes_of_prefix sized front_of ne
  refine ⟨.truncated part, ?_⟩
  rw [ofBytes, cut]
  rfl

theorem Fits.refused_of_otherStory (h : s.Fits story) (hs : story.Sound)
    (belongs : s.Belongs story) {bytes : List UInt8} (written : s.toBytes story = .ok bytes)
    {n : Machine} (other : OtherStory n.story.header story.header) :
    ∃ why, ofBytes bytes n = .error (.badSnapshot why) := by
  obtain ⟨original, -, written⟩ := except_bind_eq_ok.mp written
  rw [except_bind_of_ok (Difference.compress_eq _ _)] at written
  cases written
  obtain ⟨why, refused⟩ := checkHead_of_differs (m := n) belongs other
  refine ⟨why, ?_⟩
  rw [h.ofBytes_toContainer hs belongs, refused]
  rfl

/-- For a story that has been loaded. First, of any machine for it whose frames are within the
limits: what it saves is read back as it was by every machine for the story, but not if bytes are
missing at the end, nor by a machine for another story. Second, of any bytes that a machine for it
accepts: once the machine has been put into that state, it saves the same state again, and reads
that back. -/
theorem readBack_of_loaded {image : Memory} (loaded : Story.load image = .ok story) :
    (∀ (m : Machine) (pc : Nat) (resume : ResumePoint), m.Plays story → m.frames.Sound →
      pc < Machine.addressLimit → pc < m.memory.size →
      ∃ bytes, capture m pc resume = .ok (taken m pc resume) ∧
        (taken m pc resume).toBytes m.story = .ok bytes ∧
        (∀ n, n.Plays story → ofBytes bytes n = .ok (taken m pc resume)) ∧
        (∀ front, front <+: bytes → front ≠ bytes → ∀ n,
          ∃ why, ofBytes front n = .error (.badSnapshot why)) ∧
        ∀ n, OtherStory n.story.header story.header →
          ∃ why, ofBytes bytes n = .error (.badSnapshot why)) ∧
    ∀ (n : Machine) (bytes : List UInt8) (s : Snapshot), n.Plays story → ofBytes bytes n = .ok s →
      ∃ n' bytes', s.apply n = .ok () n' ∧ capture n' s.head.pc s.head.resume = .ok s ∧
        s.toBytes n'.story = .ok bytes' ∧ ofBytes bytes' n' = .ok s := by
  have hs := (Story.sound_of_load loaded).1
  constructor
  · intro m pc resume hm frames short inside
    rw [hm.size_eq] at inside
    have fits : (taken m pc resume).Fits story := fits_taken hs hm frames short inside
    have belongs : (taken m pc resume).Belongs story := belongs_taken hm
    obtain ⟨bytes, written, read⟩ := fits.ofBytes_toBytes hs belongs
    refine ⟨bytes, capture_eq hs hm, by rw [hm.story_eq]; exact written, read, ?_, ?_⟩
    · intro front front_of ne n
      exact fits.refused_of_prefix hs belongs written front_of ne n
    · intro n other
      exact fits.refused_of_otherStory hs belongs written other
  · intro n bytes s hn read
    obtain ⟨fits, belongs⟩ := valid_of_ofBytes hs hn read
    have plays := fits.plays_appliedTo hs hn
    obtain ⟨bytes', written, again⟩ := fits.ofBytes_toBytes hs belongs
    refine ⟨s.appliedTo n, bytes', apply_eq (fits.length_le hs hn), ?_, ?_, again _ plays⟩
    · rw [capture_eq hs plays, fits.taken_appliedTo belongs hn]
    · rw [plays.story_eq]
      exact written

/-- The smallest image there is: a header, all of it dynamic memory. -/
def leastImage : Memory :=
  Memory.put (Array.replicate 64 0) 0x0F 0x40

def leastStory : Story :=
  { image := leastImage, header := Header.ofMemory leastImage }

/-- A machine for the smallest story that has changed its memory and called a routine. -/
def leastMachine : Machine where
  story := leastStory
  memory := leastImage.put 0x20 7
  pc := 0x30
  frames :=
    { innermost := { returnPc := 0x31, store := some 0, locals := [1, 2], stack := [3] }
      callers := [.topLevel] }

/-- The machine for a story that differs from the smallest one in its release. -/
def otherMachine : Machine :=
  .start { leastStory with header := { leastStory.header with release := 1 } }

theorem readBack_leastMachine :
    Story.load leastImage = .ok leastStory ∧ ∃ bytes,
      (taken leastMachine 0x30 (.awaitingInput 1 2)).toBytes leastStory = .ok bytes ∧
      ofBytes bytes (.start leastStory) = .ok (taken leastMachine 0x30 (.awaitingInput 1 2)) ∧
      (∃ why, ofBytes [] (.start leastStory) = .error (.badSnapshot why)) ∧
      (∃ why, ofBytes bytes otherMachine = .error (.badSnapshot why)) ∧
      ∃ n' bytes',
        (taken leastMachine 0x30 (.awaitingInput 1 2)).apply (.start leastStory) = .ok () n' ∧
        (taken leastMachine 0x30 (.awaitingInput 1 2)).toBytes n'.story = .ok bytes' ∧
        ofBytes bytes' n' = .ok (taken leastMachine 0x30 (.awaitingInput 1 2)) := by
  have loaded : Story.load leastImage = .ok leastStory :=
    Story.load_of_le (by decide +kernel) (by decide +kernel)
  have start : (Machine.start leastStory).Plays leastStory := ⟨rfl, rfl⟩
  have frames : leastMachine.frames.Sound :=
    CallStack.sound_topLevel.enter ⟨by decide, by decide, by decide⟩ (by decide)
  obtain ⟨saving, accepting⟩ := readBack_of_loaded loaded
  obtain ⟨bytes, -, written, read, cut, other⟩ :=
    saving leastMachine 0x30 (.awaitingInput 1 2) ⟨rfl, by decide +kernel⟩ frames (by decide)
      (by decide +kernel)
  have some : [] ≠ bytes := by
    intro none
    have refused := read _ start
    rw [← none] at refused
    cases refused
  obtain ⟨n', bytes', applied, -, again, reread⟩ := accepting _ bytes _ start (read _ start)
  refine ⟨loaded, bytes, written, read _ start, ?_, ?_, n', bytes', applied, again, reread⟩
  · exact cut [] List.nil_prefix some _
  · exact other otherMachine (Or.inl (by decide +kernel))

end ZMachine.Snapshot
