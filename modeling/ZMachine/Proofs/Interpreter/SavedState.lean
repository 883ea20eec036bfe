import ZMachine.Proofs.Interpreter.Saving

/-!
# Saved states

Whoever runs an interpreter can save its state between two requests and restore it in any session
with the same story. A story that waits for a line still waits for it then, at the same buffers: the
buffers are in the head of the saved game. Nothing but the header tells the sessions apart
(`Rejoined`), and the host is only asked whether it can split the screen: it is the same after a
state has been restored, whatever kind of host it is.
-/

namespace ZMachine

namespace Interpreter

/-- What a memory that has been restored has from the saved one, from that of the session, and from
the interpreter. -/
structure Rejoined (canSplit : Bool) (live saved restored : Memory) : Prop extends
    Memory.AgreeBut Machine.sessionAddresses restored saved where
  flags1_eq : restored.byte 0x01 = saved.byte 0x01 &&& 0xCF ||| if canSplit then 0x20 else 0
  flags2_eq : restored.byte 0x11 = saved.byte 0x11 &&& 0xFC ||| live.byte 0x11 &&& 3
  number_eq : restored.byte 0x1E = interpreterNumber
  version_eq : restored.byte 0x1F = interpreterVersion
  revision_eq : restored.byte 0x32 = 1 ∧ restored.byte 0x33 = 1

theorem rejoined_sessionMemory {canSplit : Bool} {live saved : Memory}
    (room : Header.length ≤ saved.size) :
    Rejoined canSplit live saved (Machine.sessionMemory canSplit live saved) := by
  have inside : ∀ a, a < 0x40 → a < saved.size := fun a ha => Nat.lt_of_lt_of_le ha room
  refine ⟨Machine.agreeBut_sessionMemory canSplit live saved, ?_, ?_, ?_, ?_, ?_, ?_⟩
  all_goals
    simp [Machine.sessionMemory, Machine.preparedMemory, Machine.withSessionBits, sessionFlags1,
      Memory.byte_put, Header.flags1Address, Header.flags2Address, Header.interpreterNumberAddress,
      Header.interpreterVersionAddress, Header.standardRevisionAddress, inside]

variable {H K : Type} {story : Story} {s : Interpreter H} {t : Interpreter K}

theorem saveState_eq (hs : story.Sound) (h : s.Sound story)
    (inside : s.machine.pc < s.machine.memory.size) :
    ∃ bytes, encode s.machine.pc (resumePoint s.state) s.machine = .ok bytes ∧
      saveState s = .ok bytes s := by
  have fits : (Snapshot.taken s.machine s.machine.pc (resumePoint s.state)).Fits story :=
    Snapshot.fits_taken hs h.machine.plays h.machine.frames h.machine.pc_lt
      (h.machine.size_eq ▸ inside)
  obtain ⟨bytes, written, -⟩ := fits.ofBytes_toBytes hs (Snapshot.belongs_taken h.machine.plays)
  have encoded : encode s.machine.pc (resumePoint s.state) s.machine = .ok bytes := by
    rw [encode, except_bind_of_ok (Snapshot.capture_eq hs h.machine.plays), h.machine.story_eq]
    exact written
  exact ⟨bytes, encoded, ask_of_ok encoded⟩

variable [Host K]

/-- The state in which a session goes on from the machine and the run state of another. -/
def rejoining (t : Interpreter K) (m : Machine) (state : RunState) : Interpreter K :=
  let memory :=
    Machine.sessionMemory (Host.supportsSplit t.host) t.machine.memory m.memory
  { t with machine := { m with memory }, state, streams := { t.streams with tables := [] } }

/-- The snapshot of a machine, applied to any other of the story, is the machine itself. -/
theorem appliedTo_taken {m n : Machine} {resume : ResumePoint} (hs : story.Sound)
    (hm : m.Sound story) (hn : n.Sound story) :
    (Snapshot.taken m m.pc resume).appliedTo n = m := by
  have memory : ((Snapshot.taken m m.pc resume).appliedTo n).memory = m.memory :=
    Snapshot.memory_appliedTo_taken hs hm hn
  have story_eq : n.story = m.story := hn.story_eq.trans hm.story_eq.symm
  calc (Snapshot.taken m m.pc resume).appliedTo n
      = { m with
          story := n.story
          memory := ((Snapshot.taken m m.pc resume).appliedTo n).memory } := rfl
    _ = m := by rw [memory, story_eq]

theorem takeOver_taken {m : Machine} {resume : ResumePoint} (hs : story.Sound)
    (hm : m.Sound story) (ht : t.machine.Sound story) (inside : m.pc < story.image.size) :
    takeOver (Snapshot.taken m m.pc resume) t = .ok () (rejoining t m .running) := by
  have fits : (Snapshot.taken m m.pc resume).Fits story :=
    Snapshot.fits_taken hs hm.plays hm.frames hm.pc_lt inside
  rw [takeOver_eq_tookOver hs ht fits, appliedTo_taken hs hm ht]
  rfl

/-- The buffers of a story that waits are in the head of its saved game. -/
theorem resume_saved {m : Machine} {state : RunState} (hs : story.Sound) (hm : m.Sound story)
    (ht : t.machine.Sound story) (inside : m.pc < story.image.size) (alive : state ≠ .quit) :
    resume (Snapshot.taken m m.pc (resumePoint state)) none t = .ok () (rejoining t m state) := by
  rw [resume, bind_of_ok (takeOver_taken hs hm ht inside)]
  cases state with
  | running => rfl
  | waiting text parse => rfl
  | quit => exact absurd rfl alive

theorem unfinished_saved {m n : Machine} {pc : Nat} {state : RunState} :
    (Snapshot.taken m pc (resumePoint state)).unfinished n = .ok none := by
  cases state <;> rfl

/-- A state saved by one session and restored by another with the same story, whatever both have
been through. -/
theorem restoreState_of_saveState {H : Type} [Host H] {image : Memory} {s : Interpreter H}
    (reachable : Reachable image s) (alive : s.state ≠ .quit)
    (inside : s.machine.pc < s.machine.memory.size) :
    ∃ bytes, saveState s = .ok bytes s ∧ ∀ t : Interpreter K, Reachable image t →
      ∃ memory,
        restoreState bytes t = .ok ()
          { t with
            machine := { s.machine with memory }
            state := s.state
            streams := { t.streams with tables := [] } } ∧
        Rejoined (Host.supportsSplit t.host) t.machine.memory s.machine.memory memory := by
  obtain ⟨story, loaded, hs, sound⟩ := reachable.sound
  obtain ⟨bytes, encoded, saved⟩ := saveState_eq hs sound inside
  refine ⟨bytes, saved, fun t reachable' => ?_⟩
  obtain ⟨story', loaded', -, sound'⟩ := reachable'.sound
  obtain rfl : story = story' := Except.ok.inj (loaded.symm.trans loaded')
  have inStory := inside
  rw [sound.machine.size_eq] at inStory
  have read := ofBytes_of_encode hs sound.machine sound'.machine sound.machine.pc_lt inStory encoded
  have room : Header.length ≤ s.machine.memory.size :=
    Nat.le_trans hs.header_le (sound.machine.dynamicSize_eq ▸ sound.machine.dynamic_le hs)
  refine ⟨_, ?_, rejoined_sessionMemory room⟩
  rw [restoreState, bind_of_ok (ask_of_ok read), bind_of_ok (ask_of_ok unfinished_saved)]
  exact resume_saved hs sound.machine sound'.machine inStory alive

/-- The first state of the small story, restored once its first step has been taken. -/
theorem smallStart_restoreState_of_saveState :
    let t := after Request.step.perform smallStart
    ∃ bytes memory, saveState smallStart = .ok bytes smallStart ∧
      restoreState bytes t = .ok ()
        { t with
          machine := { smallStart.machine with memory }
          state := smallStart.state
          streams := { t.streams with tables := [] } } ∧
      Rejoined (Host.supportsSplit t.host) t.machine.memory smallStart.machine.memory memory := by
  intro t
  have inside : smallStart.machine.pc < smallStart.machine.memory.size := by decide +kernel
  have running : smallStart.state ≠ .quit := nofun
  obtain ⟨bytes, saved, restores⟩ :=
    restoreState_of_saveState (K := Scripted) reachable_smallStart running inside
  obtain ⟨memory, restored, rejoined⟩ := restores t (reachable_smallStart.after .step)
  exact ⟨bytes, memory, saved, restored, rejoined⟩

end Interpreter

end ZMachine
