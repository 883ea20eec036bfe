import ZMachine.Proofs.Interpreter.Saving

/-!
# What no request changes, and what no request exceeds

The invariant of a machine speaks of one state. Here it is read off for every state that any
requests lead to (`within_of_reachable`): story and static memory stay as they were loaded, so that
`verify` comes out the same whenever it is executed, and frames and selected tables stay within
their limits. The limit on tables is an invariant of its own (`FewTables`); only `openTable` adds
to them.
-/

namespace ZMachine

/-- The bytes behind the header add up to what the header states. -/
def Story.intact (story : Story) : Bool :=
  decide (story.checksum = story.header.checksum)

namespace Interpreter

variable {H : Type} {image : Memory} {story : Story} {s t : Interpreter H} {inst : Instruction}

/-- No more tables are selected than may be. -/
def FewTables (s : Interpreter H) : Prop :=
  s.streams.tables.length ≤ tableLimit

/-- What holds of an interpreter at any time. Frames are listed from the outermost on. -/
structure Within (story : Story) (s : Interpreter H) : Prop where
  story_eq : s.machine.story = story
  size_eq : s.machine.memory.size = story.image.size
  static : ∀ address, story.dynamicSize ≤ address →
    s.machine.memory.byte address = story.image.byte address
  outermost : ∃ first inner, s.machine.frames.toList = first :: inner ∧ first.locals = []
  frames : ∀ f ∈ s.machine.frames.toList,
    f.locals.length ≤ localsLimit ∧ f.stack.length ≤ stackLimit
  tables : s.streams.tables.length ≤ tableLimit

theorem within_of_sound (sound : s.Sound story) (few : FewTables s) : s.Within story where
  story_eq := sound.machine.story_eq
  size_eq := sound.machine.size_eq
  static := sound.machine.static
  outermost := by
    obtain ⟨first, inner, listed, last⟩ := s.machine.frames.exists_outermost
    exact ⟨first, inner, listed, sound.machine.frames.outermost first last⟩
  frames f mem :=
    have limits := sound.machine.frames.frames f (CallStack.mem_toList.mp mem)
    ⟨limits.locals_le, limits.stack_le⟩
  tables := few

/-! ### The selected tables -/

/-- A table is selected only while there are fewer than may be. -/
theorem maintains_openTable {table : Option UInt16} :
    Maintains FewTables (openTable table : Play H Unit) := by
  intro s few
  cases table with
  | none => exact ⟨few, fun _ => trivial⟩
  | some table =>
    have chosen : selected s = .ok s.streams s := rfl
    rw [openTable, bind_of_ok chosen]
    split
    · exact ⟨few, fun _ => trivial⟩
    · next room =>
      refine Kept.bind (maintains_onMachine (fun _ h => h) _ s few) fun _ t written _ => ?_
      obtain ⟨m, -, rfl⟩ := onMachine_eq_ok.mp written
      exact Nat.lt_of_not_le room

theorem detached_fewTables : Detached (FewTables : Interpreter H → Prop) where
  setMachine _ few := few
  setHost _ few := few
  roll _ few := few
  setState _ few := few
  setCurrentPc _ few := few
  selectStream stream table := by
    refine maintains_selectStream (fun _ few => few) (fun _ few => few) maintains_openTable ?_
      stream
    intro s few
    refine Nat.le_trans ?_ few
    rw [List.length_tail]
    exact Nat.sub_le _ _
  closeTables _ := Nat.zero_le _
  restartStreams _ := Nat.zero_le _

variable [Host H]

theorem Reachable.fewTables (h : Reachable image s) : FewTables s := by
  refine h.keeps (fun hstory loaded => ?_) (detached_fewTables.perform fun _ few => few)
  rw [load_eq (Story.sound_of_load hstory).1] at loaded
  split at loaded
  · cases loaded
  · obtain ⟨dictionary, -, rfl⟩ := except_map_eq_ok.mp loaded
    exact Nat.zero_le _

/-! ### Executing `verify` -/

/-- Whether the branch of `verify` is taken is a matter of the story. -/
theorem step_of_verify (fetched : fetch s = .ok inst t) (verify : inst.opcode = .verify) :
    step s = branchIf inst s.machine.story.intact t := by
  obtain ⟨decoded, -, -, rfl⟩ := fetch_eq_ok.mp fetched
  have asked : ask (fun m => .ok m.story.intact) (s.fetched inst) =
      .ok s.machine.story.intact (s.fetched inst) := ask_of_ok rfl
  have executed : execute inst (s.fetched inst) =
      branchIf inst s.machine.story.intact (s.fetched inst) := by
    rw [execute_of_op0 decoded (by rw [verify]; rfl), executeWith, verify]
    exact bind_of_ok asked
  rw [step_of_fetch fetched fun u => by rw [executed]; exact branchIf_ne_quit _ _ _, executed]

/-- Whatever is requested of an interpreter, and whether or not it fails: the story is the one that
was loaded, memory has its length and its static part, and frames and tables are within their
limits. The branch of `verify` is taken on the same condition every time. -/
theorem within_of_reachable (loaded : Story.load image = .ok story) :
    story.image = image ∧ ∀ s : Interpreter H, Reachable image s →
      s.Within story ∧ ∀ inst t, fetch s = .ok inst t → inst.opcode = .verify →
        step s = branchIf inst story.intact t := by
  refine ⟨(Story.sound_of_load loaded).2, fun s reachable => ?_⟩
  obtain ⟨story', loaded', -, sound⟩ := reachable.sound
  obtain rfl : story = story' := Except.ok.inj (loaded.symm.trans loaded')
  refine ⟨within_of_sound sound reachable.fewTables, fun inst t fetched verify => ?_⟩
  rw [step_of_verify fetched verify, sound.machine.story_eq]

/-- A game of the small story in which `verify` has taken the place of `save`. -/
def verifyingGame : Snapshot where
  head := Snapshot.headFor smallStory 0x40 .atPc
  dynamicMemory := ((smallImage.put 0x40 0xBD).extract 0 0x48).toList
  frames := .topLevel

def verifying : Interpreter Scripted :=
  after (Request.restoreState ((verifyingGame.toBytes smallStory).toOption.getD [])).perform
    smallStart

def smallVerify : Instruction :=
  { opcode := .verify, form := .short, operands := [], store := none, branch := some ⟨true, 2⟩
    text := none, size := 2 }

theorem within_verifying :
    Story.load smallImage = .ok smallStory ∧ Reachable smallImage verifying ∧
      verifying.Within smallStory ∧
      fetch verifying = .ok smallVerify (verifying.fetched smallVerify) ∧
      step verifying = branchIf smallVerify smallStory.intact (verifying.fetched smallVerify) := by
  have reachable : Reachable smallImage verifying := reachable_smallStart.after _
  have fetched : fetch verifying = .ok smallVerify (verifying.fetched smallVerify) :=
    fetch_eq_ok.mpr ⟨by decide +kernel, by decide +kernel, by decide +kernel, rfl⟩
  obtain ⟨-, always⟩ := within_of_reachable (H := Scripted) load_smallImage
  obtain ⟨within, verified⟩ := always verifying reachable
  exact ⟨load_smallImage, reachable, within, fetched, verified _ _ fetched rfl⟩

end Interpreter

end ZMachine
