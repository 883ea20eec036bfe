import ZMachine.Proofs.Interpreter.Saving

/-!
# Refused games

A saved game is looked at before it is taken over, so that a game that is refused changes nothing.
One failure comes too late for that: the save instruction of the game returns from its routine, and
the caller cannot take the result (`Stranded`). Then the game has been taken over and the routine
has been left when the error arises.
-/

namespace ZMachine

/-- The frame cannot take a value for the variable: its evaluation stack is full, or the global does
not lie in dynamic memory. -/
def Frame.Refuses (story : Story) (f : Frame) (number : UInt8) : Prop :=
  if number = 0 then stackLimit ≤ f.stack.length
  else ¬ number < 16 ∧
    story.dynamicSize ≤ story.header.globals.toNat + (number.toNat - 16) * 2 + 1

instance {story : Story} {f : Frame} {number : UInt8} : Decidable (f.Refuses story number) := by
  unfold Frame.Refuses
  infer_instance

/-- The running routine has a caller that cannot take its result. -/
structure CallStack.Stranded (story : Story) (stack : CallStack) (caller : Frame)
    (callers : List Frame) : Prop where
  callers_eq : stack.callers = caller :: callers
  refuses : ∃ number, stack.innermost.store = some number ∧ caller.Refuses story number

namespace Machine

variable {m : Machine} {number : UInt8} {value : UInt16} {caller : Frame} {callers : List Frame}

theorem writeWord_of_le {address : Nat} (static : m.dynamicSize ≤ address + 1)
    (addressable : address + 1 < addressLimit) (inside : m.dynamicSize ≤ m.memory.size) :
    ∃ e t, writeWord address value m = .error e t ∧ t.frames = m.frames ∧ t.pc = m.pc := by
  rcases Nat.lt_or_ge address m.dynamicSize with dynamic | behind
  · have first : writeByte address (Word.high value) m =
        .ok () (m.withByte address (Word.high value)) :=
      writeByte_of_lt dynamic (Nat.lt_of_lt_of_le dynamic inside)
    exact ⟨_, _, (bind_of_ok first).trans (writeByte_of_le static addressable), rfl, rfl⟩
  · exact ⟨_, m, bind_of_error (writeByte_of_le behind (by omega)), rfl, rfl⟩

theorem writeVariable_of_takes (inside : m.dynamicSize ≤ m.memory.size)
    (takes : ¬ m.frames.innermost.Refuses m.story number) :
    ∃ t, writeVariable number value m = .ok () t := by
  rw [Frame.Refuses] at takes
  rw [writeVariable]
  split at takes
  · next stack =>
    rw [if_pos stack]
    exact ⟨_, if_neg takes⟩
  · next other =>
    rw [if_neg other]
    split
    · next isLocal => exact ⟨_, if_neg (toNat_ne_zero_of_ne other)⟩
    · next global =>
      rw [writeGlobal_eq, get_bind, if_neg global]
      have dynamic := Nat.lt_of_not_le fun le => takes ⟨global, le⟩
      exact ⟨_, writeWord_of_lt dynamic (Nat.lt_of_lt_of_le dynamic inside)⟩

theorem writeVariable_of_refuses (inside : m.dynamicSize ≤ m.memory.size)
    (refuses : m.frames.innermost.Refuses m.story number) :
    ∃ e t, writeVariable number value m = .error e t ∧ t.frames = m.frames ∧ t.pc = m.pc := by
  rw [Frame.Refuses] at refuses
  rw [writeVariable]
  split at refuses
  · next stack =>
    rw [if_pos stack]
    exact ⟨_, m, if_pos refuses, rfl, rfl⟩
  · next other =>
    rw [if_neg other, if_neg refuses.1, writeGlobal_eq, get_bind, if_neg refuses.1]
    exact writeWord_of_le refuses.2 (globalAddress_lt m number) inside

theorem giveBack_of_stranded (value : UInt16) (inside : m.dynamicSize ≤ m.memory.size)
    (stranded : m.frames.Stranded m.story caller callers) :
    ∃ e t, giveBack value m = .error e t ∧ t.frames = { innermost := caller, callers } ∧
      t.pc = m.frames.innermost.returnPc := by
  obtain ⟨eq, number, store, refuses⟩ := stranded
  rw [giveBack_eq eq, store]
  exact writeVariable_of_refuses inside refuses

theorem stranded_of_giveBack {e : MachineError} {t : Machine}
    (inside : m.dynamicSize ≤ m.memory.size) (depth : m.frames.depth ≠ 0)
    (failed : giveBack value m = .error e t) :
    ∃ caller callers, m.frames.Stranded m.story caller callers := by
  cases eq : m.frames.callers with
  | nil => exact absurd (congrArg List.length eq) depth
  | cons caller callers =>
    rw [giveBack_eq eq] at failed
    cases store : m.frames.innermost.store with
    | none =>
      rw [store] at failed
      cases failed
    | some number =>
      rw [store] at failed
      refine ⟨caller, callers, eq, number, store, ?_⟩
      refine Decidable.byContradiction fun takes => ?_
      obtain ⟨t', run⟩ : ∃ t', writeVariable number value (m.left caller callers) = .ok () t' :=
        writeVariable_of_takes inside takes
      dsimp only at failed
      rw [run] at failed
      cases failed

end Machine

namespace Interpreter

variable {H : Type} [Host H] {story : Story} {s t u : Interpreter H} {inst : Instruction}
  {snapshot : Snapshot} {caller : Frame} {callers : List Frame} {bytes : List UInt8}
  {e : MachineError}

/-- The bytes are a game whose save instruction returns to a caller that cannot take the result. -/
structure Strands (bytes : List UInt8) (m : Machine) (snapshot : Snapshot) (caller : Frame)
    (callers : List Frame) : Prop where
  read : Snapshot.ofBytes bytes m = .ok snapshot
  returns : ∃ inst, snapshot.unfinished m = .ok (some inst) ∧
    Snapshot.returnsOnSuccess inst.branch = true
  stranded : snapshot.frames.Stranded m.story caller callers

/-- Once a game has been taken over, only the caller of its save instruction can refuse. -/
theorem resume_eq_error (hs : story.Sound) (hm : t.machine.Sound story)
    (fits : snapshot.Fits story) {found : Option Instruction}
    (unfinished : snapshot.unfinished t.machine = .ok found)
    (failed : resume snapshot found t = .error e u) :
    (∃ inst, found = some inst ∧ Snapshot.returnsOnSuccess inst.branch = true) ∧
      ∃ caller callers, snapshot.frames.Stranded t.machine.story caller callers := by
  cases found with
  | none =>
    obtain ⟨m, -, run⟩ := takeOver_eq hs hm fits
    rw [resume, bind_of_ok run] at failed
    cases resume : snapshot.head.resume <;> rw [resume] at failed <;> cases failed
  | some inst =>
    obtain ⟨save, found⟩ := Snapshot.unfinished_eq_some unfinished
    obtain ⟨-, -, -, -, deep, -⟩ := Snapshot.saveInstruction_eq_ok found
    obtain ⟨m, inState, run⟩ := resume_eq hs hm fits save
    have frames : (finishing t m inst).machine.frames = snapshot.frames := inState.frames_eq
    have story_eq : (finishing t m inst).machine.story = t.machine.story := inState.story_eq
    rw [run inst] at failed
    rcases bind_eq_error.mp failed with failed | ⟨_, _, -, failed⟩
    · rw [branchIf_eq] at failed
      obtain ⟨m', failed, -⟩ := onMachine_eq_error.mp failed
      cases returns : Snapshot.returnsOnSuccess inst.branch with
      | false =>
        obtain ⟨outcome, m'', taken⟩ :=
          Machine.branchIf_of_stays returns (finishing t m inst).machine
        rw [taken] at failed
        cases failed
      | true =>
        refine ⟨⟨inst, rfl, returns⟩, ?_⟩
        obtain ⟨value, eq⟩ := Machine.branchIf_of_returns returns
        rw [eq] at failed
        rcases bind_eq_error.mp failed with failed | ⟨_, _, -, failed⟩
        · rw [← frames, ← story_eq]
          refine Machine.stranded_of_giveBack (inState.dynamic_le hs hm fits) ?_ failed
          rw [frames]
          exact deep returns
        · cases failed
    · cases failed

/-- The game of a stranded snapshot has been taken over, and its routine left, before it is
refused. -/
theorem resume_of_stranded (hs : story.Sound) (hm : t.machine.Sound story)
    (fits : snapshot.Fits story) (unfinished : snapshot.unfinished t.machine = .ok (some inst))
    (returns : Snapshot.returnsOnSuccess inst.branch = true)
    (stranded : snapshot.frames.Stranded t.machine.story caller callers) :
    ∃ e u, resume snapshot (some inst) t = .error e u ∧
      u.machine.frames = { innermost := caller, callers } ∧
      u.machine.pc = snapshot.frames.innermost.returnPc ∧ u.state = .running ∧
      u.streams.tables = [] := by
  obtain ⟨save, -⟩ := Snapshot.unfinished_eq_some unfinished
  obtain ⟨m, inState, run⟩ := resume_eq hs hm fits save
  obtain ⟨value, eq⟩ := Machine.branchIf_of_returns returns
  have stranded' : (finishing t m inst).machine.frames.Stranded (finishing t m inst).machine.story
      caller callers := by
    simp only [finishing, inState.frames_eq, inState.story_eq]
    exact stranded
  obtain ⟨e, m', failed, frames, pc⟩ :=
    Machine.giveBack_of_stranded (m := (finishing t m inst).machine) value
      (inState.dynamic_le hs hm fits) stranded'
  refine ⟨e, { finishing t m inst with machine := m' }, ?_, frames, ?_, rfl, rfl⟩
  · rw [run inst, branchIf_eq, eq]
    exact bind_of_error (onMachine_of_error (bind_of_error failed))
  · rw [← inState.frames_eq]
    exact pc

/-- A game is refused in the state it has found, but for one that strands. -/
theorem state_eq_of_refused (hs : story.Sound) (hm : s.machine.Sound story)
    (refused : restoreState bytes s = .error e t)
    (finishes : ∀ snapshot caller callers, ¬ Strands bytes s.machine snapshot caller callers) :
    t = s := by
  rcases bind_eq_error.mp refused with failed | ⟨snapshot, s', asked, later⟩
  · exact (ask_eq_error.mp failed).2
  · obtain ⟨read, rfl⟩ := ask_eq_ok.mp asked
    rcases bind_eq_error.mp later with failed | ⟨found, s'', asked', last⟩
    · exact (ask_eq_error.mp failed).2
    · obtain ⟨unfinished, rfl⟩ := ask_eq_ok.mp asked'
      obtain ⟨⟨inst, rfl, returns⟩, caller, callers, stranded⟩ :=
        resume_eq_error hs hm (Snapshot.fits_of_ofBytes hs hm read) unfinished last
      exact absurd ⟨read, ⟨inst, unfinished, returns⟩, stranded⟩ (finishes snapshot caller callers)

/-- The instruction `restore` takes its branch for a failure in the state of the refusal. -/
theorem step_restore_of_refused (fetched : fetch s = .ok inst t) (restore : inst.opcode = .restore)
    (given : (Host.restore s.host).1 = some bytes) (ne : e ≠ .fault)
    (refused : restoreState bytes { t with host := (Host.restore s.host).2 } = .error e u) :
    step s = branchIf inst false u := by
  have executed : execute inst t = branchIf inst false u := by
    rw [execute_restore fetched restore given, refused]
    cases e <;> first | rfl | exact absurd rfl ne
  rw [step_of_fetch fetched fun u' => by rw [executed]; exact branchIf_ne_quit _ _ _, executed]

/-- What a refused game changes in a reachable state: nothing, unless it strands, which it does
only after it has been taken over. For a game that changes nothing, the instruction `restore` does
no more than to take its branch for a failure. -/
theorem refused_of_reachable {image : Memory} (reachable : Reachable image s) (bytes : List UInt8) :
    (∀ e t, restoreState bytes s = .error e t →
      (¬ ∃ snapshot caller callers, Strands bytes s.machine snapshot caller callers) → t = s) ∧
    (∀ snapshot caller callers, Strands bytes s.machine snapshot caller callers →
      ∃ e t, restoreState bytes s = .error e t ∧
        t.machine.frames = { innermost := caller, callers } ∧
        t.machine.pc = snapshot.frames.innermost.returnPc ∧ t.state = .running ∧
        t.streams.tables = []) ∧
    ∀ inst t e u, fetch s = .ok inst t → inst.opcode = .restore →
      (Host.restore s.host).1 = some bytes →
      restoreState bytes { t with host := (Host.restore s.host).2 } = .error e u → e ≠ .fault →
      (¬ ∃ snapshot caller callers, Strands bytes s.machine snapshot caller callers) →
      step s = branchIf inst false { s.fetched inst with host := (Host.restore s.host).2 } := by
  obtain ⟨story, -, hs, sound⟩ := reachable.sound
  refine ⟨?_, ?_, ?_⟩
  · intro e t refused finishes
    exact state_eq_of_refused hs sound.machine refused
      fun snapshot caller callers strands => finishes ⟨snapshot, caller, callers, strands⟩
  · rintro snapshot caller callers ⟨read, ⟨inst, unfinished, returns⟩, stranded⟩
    have fits := Snapshot.fits_of_ofBytes hs sound.machine read
    obtain ⟨e, t, run, after⟩ :=
      resume_of_stranded hs sound.machine fits unfinished returns stranded
    refine ⟨e, t, ?_, after⟩
    rw [restoreState, bind_of_ok (ask_of_ok read), bind_of_ok (ask_of_ok unfinished)]
    exact run
  · intro inst t e u fetched restore given refused ne finishes
    obtain ⟨-, short, counted, rfl⟩ := fetch_eq_ok.mp fetched
    have machine : (s.fetched inst).machine.Sound story := (sound.fetched short counted).machine
    -- Only the program counter has moved, which does not matter for the game.
    have unchanged : u = { s.fetched inst with host := (Host.restore s.host).2 } :=
      state_eq_of_refused hs machine refused fun snapshot caller callers strands =>
        finishes ⟨snapshot, caller, callers, strands.read, strands.returns, strands.stranded⟩
    rw [step_restore_of_refused fetched restore given ne refused, unchanged]

/-- A game of the small story in which `save` returns from a routine whose result goes to a third
global. -/
def strandedGame : Snapshot where
  head := Snapshot.headFor smallStory 0x40 .saveInstruction
  dynamicMemory := ((smallImage.put 0x41 0xC1).extract 0 0x48).toList
  frames :=
    { innermost := { returnPc := 0x42, store := some 18, locals := [], stack := [] }
      callers := [.topLevel] }

def strandedBytes : List UInt8 :=
  (strandedGame.toBytes smallStory).toOption.getD []

/-- The game is refused, but the program counter and the memory are no longer what they were. -/
theorem refused_strandedBytes :
    Reachable smallImage smallStart ∧ ∃ t,
      restoreState strandedBytes smallStart = .error (.writeOutside 0x48) t ∧
      smallStart.machine.pc = 0x40 ∧ t.machine.pc = 0x42 ∧
      smallStart.machine.memory.byte 0x41 = 0xC2 ∧ t.machine.memory.byte 0x41 = 0xC1 := by
  refine ⟨reachable_smallStart, after (restoreState strandedBytes) smallStart, ?_, ?_⟩
  · exact eq_error_of_result (by decide +kernel)
  · decide +kernel

/-- A game of the spinning story that says that it was saved by the instruction at 0x40, which is
`restore`. This comes out only when all of the game has been read. -/
def misplacedGame : Snapshot where
  head := Snapshot.headFor spinningStory 0x40 .saveInstruction
  dynamicMemory := (spinningImage.extract 0 0x4C).toList
  frames := .topLevel

def misplacedBytes : List UInt8 :=
  (misplacedGame.toBytes spinningStory).toOption.getD []

/-- The story before it restores the game, which is what its host has kept. -/
def misplacedStart : Interpreter Scripted :=
  { spinningStart with host.saved := some misplacedBytes }

theorem not_strands_of_unfinished {m : Machine} {why : MachineError}
    (read : Snapshot.ofBytes bytes m = .ok snapshot)
    (unfinished : snapshot.unfinished m = .error why) :
    ¬ ∃ snapshot caller callers, Strands bytes m snapshot caller callers := by
  rintro ⟨_, _, _, read', ⟨inst, found, -⟩, -⟩
  obtain rfl := Except.ok.inj (read.symm.trans read')
  cases unfinished.symm.trans found

/-- The game is refused because of its last check, and then nothing has been changed, be it that the
host has the story go on with it or that the story itself does. -/
theorem refused_misplacedBytes :
    Reachable spinningImage misplacedStart ∧
      Snapshot.ofBytes misplacedBytes misplacedStart.machine = .ok misplacedGame ∧
      restoreState misplacedBytes misplacedStart =
        .error (.badSnapshot (.noSaveInstruction 0x40 .restore)) misplacedStart ∧
      step misplacedStart = branchIf spinningRestore false
        { misplacedStart.fetched spinningRestore with
          host := (Host.restore misplacedStart.host).2 } := by
  have reachable : Reachable spinningImage misplacedStart :=
    reachable_spinningStart.after (.changeHost fun host => { host with saved := some misplacedBytes })
  have read : Snapshot.ofBytes misplacedBytes misplacedStart.machine = .ok misplacedGame := by
    decide +kernel
  have unfinished : misplacedGame.unfinished misplacedStart.machine =
      .error (.badSnapshot (.noSaveInstruction 0x40 .restore)) := by
    decide +kernel
  have refused : restoreState misplacedBytes misplacedStart =
      .error (.badSnapshot (.noSaveInstruction 0x40 .restore))
        (after (restoreState misplacedBytes) misplacedStart) :=
    eq_error_of_result (by decide +kernel)
  obtain ⟨unchanged, -, restoring⟩ := refused_of_reachable reachable misplacedBytes
  have finishes := not_strands_of_unfinished read unfinished
  have same := unchanged _ _ refused finishes
  rw [same] at refused
  refine ⟨reachable, read, refused, ?_⟩
  have fetched : fetch misplacedStart =
      .ok spinningRestore (misplacedStart.fetched spinningRestore) :=
    fetch_eq_ok.mpr ⟨by decide +kernel, by decide +kernel, by decide, rfl⟩
  have refused' : restoreState misplacedBytes
      { misplacedStart.fetched spinningRestore with
        host := (Host.restore misplacedStart.host).2 } =
      .error (.badSnapshot (.noSaveInstruction 0x40 .restore)) (after _ _) :=
    eq_error_of_result (by decide +kernel)
  exact restoring _ _ _ _ fetched rfl rfl refused' nofun finishes

end Interpreter

end ZMachine
