import ZMachine.Proofs.Interpreter.Branch
import ZMachine.Proofs.Interpreter.Reachable

/-!
# Restored games

A game that the instruction `save` has given to the host can be restored by the instruction
`restore` in any reachable state of the same story. It then goes on exactly as it did when it had
been saved (`step_restore_of_saved`): the snapshot was taken before the branch of `save`, and the
branch is taken again, by the instruction as it stands in the saved memory.
-/

namespace ZMachine

namespace Interpreter

variable {H : Type} [Host H] {story : Story} {s t : Interpreter H} {inst : Instruction}

/-! ### Steps of instructions without operands -/

theorem execute_of_op0 {memory : Memory} {address : Nat} {abbreviations : Nat}
    (decoded : Instruction.decode memory address abbreviations = .ok inst)
    (op0 : inst.opcode.count = .op0) :
    (execute inst : Play H Outcome) = executeWith inst [] := by
  rw [execute, Instruction.operands_of_op0 decoded op0]
  rfl

/-- Nothing is left to do after an instruction that does not quit. -/
theorem step_of_fetch (fetched : fetch s = .ok inst t)
    (stays : ∀ u, execute inst t ≠ .ok .quit u) : step s = execute inst t := by
  rw [step, bind_of_ok fetched]
  cases run : execute inst t with
  | ok outcome u =>
    have other : outcome ≠ .quit := by
      intro eq
      subst eq
      exact stays u run
    rw [bind_of_ok run, if_neg other]
    rfl
  | error e u => rw [bind_of_error run]

/-! ### Saving by an instruction -/

/-- Once the host has been given the game and has kept it, the branch for success is taken. -/
theorem branchIf_of_step_save {bytes : List UInt8} {outcome : Outcome} {u : Interpreter H}
    (fetched : fetch s = .ok inst t) (save : inst.opcode = .save)
    (encoded : encode s.machine.pc .saveInstruction s.machine = .ok bytes)
    (kept : (Host.save s.host bytes).1 = true) (run : step s = .ok outcome u) :
    u.host = (Host.save s.host bytes).2 ∧
      Machine.branchIf inst.branch true { s.machine with pc := s.machine.pc + inst.size } =
        .ok outcome u.machine := by
  obtain ⟨decoded, -, -, rfl⟩ := fetch_eq_ok.mp fetched
  have executed : execute inst (s.fetched inst) =
      branchIf inst true { s.fetched inst with host := (Host.save s.host bytes).2 } := by
    have asked : ask (encode (s.fetched inst).currentPc .saveInstruction) (s.fetched inst) =
        .ok bytes (s.fetched inst) := ask_of_ok encoded
    rw [execute_of_op0 decoded (by rw [save]; rfl), executeWith, save]
    dsimp only
    rw [executeSave, get_bind, bind_of_ok asked, ← kept]
    rfl
  rw [step_of_fetch fetched fun u' => by rw [executed]; exact branchIf_ne_quit _ _ _, executed,
    branchIf_eq] at run
  obtain ⟨m, taken, rfl⟩ := onMachine_eq_ok.mp run
  exact ⟨rfl, taken⟩

/-! ### Going on in a saved game -/

/-- The state in which the branch of a game's save instruction is taken, by a machine that has come
to `m` by taking over the game. -/
def finishing (t : Interpreter H) (m : Machine) (inst : Instruction) : Interpreter H :=
  { tookOver t m with
    currentPc := m.pc
    machine := { m with pc := m.pc + inst.size } }

/-- Taking over a game succeeds, and then only the branch of its save instruction is left. -/
theorem resume_eq {snapshot : Snapshot} (hs : story.Sound) (ht : t.machine.Sound story)
    (fits : snapshot.Fits story) (save : snapshot.head.resume = .saveInstruction) :
    ∃ m, InStateOf snapshot t.machine m ∧ ∀ inst,
      resume snapshot (some inst) t = (do let _ ← branchIf inst true) (finishing t m inst) := by
  obtain ⟨m, inState, run⟩ := takeOver_eq hs ht fits
  refine ⟨m, inState, fun inst => ?_⟩
  rw [resume, bind_of_ok run]
  simp only [save]
  cases finished : (do let _ ← branchIf inst true : Play H Unit) (finishing t m inst) with
  | ok a u => exact bind_of_ok finished
  | error e u => exact bind_of_error finished

/-- Going on in the snapshot of a machine, the branch of the instruction is taken as by the machine
itself. -/
theorem resume_taken {m m' : Machine} {pc : Nat} {outcome : Outcome} (hs : story.Sound)
    (hm : m.Sound story) (ht : t.machine.Sound story) (short : pc < Machine.addressLimit)
    (inside : pc < story.image.size)
    (taken : Machine.branchIf inst.branch true { m with pc := pc + inst.size } = .ok outcome m') :
    ∃ u, resume (Snapshot.taken m pc .saveInstruction) (some inst) t = .ok () u ∧
      u.state = .running ∧ u.machine.pc = m'.pc ∧ u.machine.frames = m'.frames ∧
      Memory.AgreeBut Machine.sessionAddresses u.machine.memory m'.memory := by
  have fits : (Snapshot.taken m pc .saveInstruction).Fits story :=
    Snapshot.fits_taken hs hm.plays hm.frames short inside
  obtain ⟨n, inState, run⟩ := resume_eq hs ht fits rfl
  have agree := inState.memory
  rw [Snapshot.memory_appliedTo_taken hs hm ht] at agree
  obtain ⟨memory, again, agree⟩ := Machine.runsAlike_branchIf inst.branch true
    { m with pc := pc + inst.size } n.memory outcome m' agree taken
  have same : (finishing t n inst).machine =
      { m with pc := pc + inst.size, memory := n.memory } := by
    rw [finishing, inState.pc_eq, inState.frames_eq, inState.story_eq, ht.story_eq, ← hm.story_eq]
    rfl
  rw [← same] at again
  refine ⟨{ finishing t n inst with machine := { m' with memory } }, ?_, rfl, rfl, rfl, agree⟩
  rw [run inst, branchIf_eq]
  exact bind_of_ok (onMachine_of_ok again)

/-- A snapshot that a machine has taken at its save instruction is found to be unfinished there. -/
theorem unfinished_taken {m n m' : Machine} {pc : Nat} {outcome : Outcome} (hs : story.Sound)
    (hm : m.Sound story) (hn : n.Sound story)
    (decoded : Instruction.decode m.memory pc m.story.header.abbreviations.toNat = .ok inst)
    (save : inst.opcode = .save) (short : pc + inst.size < Machine.addressLimit)
    (taken : Machine.branchIf inst.branch true { m with pc := pc + inst.size } = .ok outcome m') :
    (Snapshot.taken m pc .saveInstruction).unfinished n = .ok (some inst) := by
  rw [hm.story_eq, ← hn.story_eq] at decoded
  have returns : Snapshot.returnsOnSuccess inst.branch = true → m.frames.depth ≠ 0 :=
    Machine.depth_ne_zero_of_branchIf (m := { m with pc := pc + inst.size }) taken
  have composed : (Snapshot.taken m pc .saveInstruction).memoryOver n.memory = .ok m.memory :=
    Snapshot.memoryOver_taken hs hm hn
  exact except_bind_of_ok (Snapshot.saveInstruction_of_ok composed decoded save returns short)

/-- The bytes of a game are read back as the snapshot of the machine that has been saved. -/
theorem ofBytes_of_encode {m n : Machine} {pc : Nat} {point : ResumePoint} {bytes : List UInt8}
    (hs : story.Sound) (hm : m.Sound story) (hn : n.Sound story)
    (short : pc < Machine.addressLimit) (inside : pc < story.image.size)
    (encoded : encode pc point m = .ok bytes) :
    Snapshot.ofBytes bytes n = .ok (Snapshot.taken m pc point) := by
  have fits : (Snapshot.taken m pc point).Fits story :=
    Snapshot.fits_taken hs hm.plays hm.frames short inside
  obtain ⟨bytes', written, read⟩ := fits.ofBytes_toBytes hs (Snapshot.belongs_taken hm.plays)
  rw [encode, except_bind_of_ok (Snapshot.capture_eq hs hm.plays), hm.story_eq, written] at encoded
  cases encoded
  exact read n hn.plays

theorem execute_restore {bytes : List UInt8} (fetched : fetch s = .ok inst t)
    (restore : inst.opcode = .restore) (given : (Host.restore s.host).1 = some bytes) :
    execute inst t =
      match restoreState bytes { t with host := (Host.restore s.host).2 } with
      | .ok _ u => .ok .branched u
      | .error .fault u => .error .fault u
      | .error _ u => branchIf inst false u := by
  obtain ⟨decoded, -, -, rfl⟩ := fetch_eq_ok.mp fetched
  have asked : onHost Host.restore (s.fetched inst) =
      .ok (some bytes) { s.fetched inst with host := (Host.restore s.host).2 } := by
    rw [← given]
    rfl
  rw [execute_of_op0 decoded (by rw [restore]; rfl), executeWith, restore]
  dsimp only
  rw [executeRestore]
  exact (bind_of_ok asked).trans rfl

theorem step_restore {bytes : List UInt8} {u : Interpreter H} (fetched : fetch s = .ok inst t)
    (restore : inst.opcode = .restore) (given : (Host.restore s.host).1 = some bytes)
    (run : restoreState bytes { t with host := (Host.restore s.host).2 } = .ok () u) :
    step s = .ok .branched u := by
  have executed : execute inst t = .ok .branched u := by
    rw [execute_restore fetched restore given, run]
  rw [step_of_fetch fetched fun u' => by rw [executed]; exact nofun, executed]

/-- A game saved by an instruction, which gives it to the host, and restored by one, in any two
reachable states of the same story, goes on as it did after it had been saved: with the same program
counter and frames, and the same memory but for the bytes of the header that belong to the
session. -/
theorem step_restore_of_saved {H K : Type} [Host H] [Host K] {image : Memory}
    {s s' s₁ : Interpreter H} {t t' : Interpreter K} {save restore : Instruction}
    {bytes : List UInt8} {outcome : Outcome}
    (reachable : Reachable image s) (fetched : fetch s = .ok save s')
    (isSave : save.opcode = .save)
    (encoded : encode s.machine.pc .saveInstruction s.machine = .ok bytes)
    (kept : (Host.save s.host bytes).1 = true) (saved : step s = .ok outcome s₁)
    (reachable' : Reachable image t) (fetched' : fetch t = .ok restore t')
    (isRestore : restore.opcode = .restore) (given : (Host.restore t.host).1 = some bytes) :
    s₁.host = (Host.save s.host bytes).2 ∧
      ∃ t₁, step t = .ok .branched t₁ ∧ t₁.state = .running ∧ t₁.machine.pc = s₁.machine.pc ∧
        t₁.machine.frames = s₁.machine.frames ∧
        Memory.AgreeBut Machine.sessionAddresses t₁.machine.memory s₁.machine.memory := by
  obtain ⟨story, loaded, hs, sound⟩ := reachable.sound
  obtain ⟨story', loaded', -, sound'⟩ := reachable'.sound
  obtain rfl : story = story' := Except.ok.inj (loaded.symm.trans loaded')
  obtain ⟨decoded, short, -, -⟩ := fetch_eq_ok.mp fetched
  obtain ⟨-, short', counted', rfl⟩ := fetch_eq_ok.mp fetched'
  have inside := (Instruction.add_size_le decoded).1
  rw [sound.machine.size_eq] at inside
  obtain ⟨handed, taken⟩ := branchIf_of_step_save fetched isSave encoded kept saved
  have restoring : ({ t.fetched restore with host := (Host.restore t.host).2 } :
      Interpreter K).Sound story :=
    ⟨(sound'.fetched short' counted').machine, sound'.dictionary, counted'⟩
  have read :=
    ofBytes_of_encode hs sound.machine restoring.machine sound.machine.pc_lt inside encoded
  have found :=
    unfinished_taken hs sound.machine restoring.machine decoded isSave short taken
  obtain ⟨t₁, run, state, pc, frames, memory⟩ :=
    resume_taken hs sound.machine restoring.machine sound.machine.pc_lt inside taken
  refine ⟨handed, t₁, step_restore fetched' isRestore given ?_, state, pc, frames, memory⟩
  rw [restoreState, bind_of_ok (ask_of_ok read), bind_of_ok (ask_of_ok found)]
  exact run

def smallSave : Instruction :=
  { opcode := .save, form := .short, operands := [], store := none, branch := some ⟨true, 2⟩
    text := none, size := 2 }

def smallGame : List UInt8 :=
  (encode smallStart.machine.pc .saveInstruction smallStart.machine).toOption.getD []

theorem smallStart_restore_of_saved :
    (after step smallStart).host = (Host.save smallStart.host smallGame).2 ∧
      ∃ t, step (after Request.step.perform smallStart) = .ok .branched t ∧ t.state = .running ∧
        t.machine.pc = (after step smallStart).machine.pc ∧
        t.machine.frames = (after step smallStart).machine.frames ∧
        Memory.AgreeBut Machine.sessionAddresses t.machine.memory
          (after step smallStart).machine.memory := by
  have fetched : fetch smallStart = .ok smallSave (smallStart.fetched smallSave) :=
    fetch_eq_ok.mpr ⟨by decide +kernel, by decide +kernel, by decide +kernel, rfl⟩
  have fetched' : fetch (after Request.step.perform smallStart) =
      .ok { smallSave with opcode := .restore }
        ((after Request.step.perform smallStart).fetched { smallSave with opcode := .restore }) :=
    fetch_eq_ok.mpr ⟨by decide +kernel, by decide +kernel, by decide +kernel, rfl⟩
  have saved : step smallStart = .ok .branched (after step smallStart) :=
    eq_ok_of_result (by decide +kernel)
  have encoded : encode smallStart.machine.pc .saveInstruction smallStart.machine =
      .ok smallGame := by decide +kernel
  have given : (Host.restore (after Request.step.perform smallStart).host).1 = some smallGame := by
    decide +kernel
  exact step_restore_of_saved reachable_smallStart fetched rfl encoded rfl saved
    (reachable_smallStart.after .step) fetched' rfl given

end Interpreter

end ZMachine
