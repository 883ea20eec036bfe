import ZMachine.Proofs.Interpreter.Output
import ZMachine.Proofs.Interpreter.Running
import ZMachine.Proofs.Interpreter.Session
import ZMachine.Proofs.Machine.Input
import ZMachine.Proofs.Machine.Objects

/-!
# Safety of the interpreter

The invariant of an interpreter is that of its machine, together with a dictionary whose entries lie
in memory and a count of instructions of 64 bits (`Interpreter.Sound`). Every request keeps it, and
no request faults, but that in too large an image a place need not be an address.
-/

namespace ZMachine.Interpreter

variable {H : Type} {story : Story}

structure Sound (story : Story) (s : Interpreter H) : Prop where
  machine : s.machine.Sound story
  dictionary : s.dictionary.Fits story.image.size
  count_lt : s.count < countLimit

/-- The operation keeps the invariant, and faults at most if the image is too large. -/
def Safe {α : Type} (story : Story) (x : Play H α) : Prop :=
  Keeps (Sound story) (fun _ => Machine.imageLimit ≤ story.image.size) x

theorem safe_onMachine {α : Type} {operation : MachineM α} (h : Machine.Safe story operation) :
    Safe story (onMachine operation : Play H α) := by
  intro s hs
  have kept := h s.machine hs.machine
  rw [onMachine]
  cases run : operation s.machine with
  | ok a m =>
    rw [run] at kept
    exact ⟨kept, hs.dictionary, hs.count_lt⟩
  | error e m =>
    rw [run] at kept
    exact ⟨⟨kept.1, hs.dictionary, hs.count_lt⟩, kept.2⟩

theorem safe_ask {α : Type} {f : Machine → Except MachineError α}
    (h : ∀ m, m.Sound story → story.image.size < Machine.imageLimit → f m ≠ .error .fault) :
    Safe story (ask f : Play H α) :=
  safe_onMachine <| Keeps.query fun m hm fault => Nat.le_of_not_lt fun small => h m hm small fault

theorem Question.ne_fault {α : Type} {f : Machine → Except MachineError α} (q : Question f)
    {m : Machine} (h : m.Sound story) (small : story.image.size < Machine.imageLimit) :
    f m ≠ .error .fault := by
  have size := h.size_lt small
  cases q with
  | readInPlace number => exact Machine.readInPlace_ne_fault
  | link l object => exact Machine.link_ne_fault
  | hasAttribute object index => exact Machine.hasAttribute_ne_fault
  | getProperty object property => exact Machine.getProperty_ne_fault size
  | propertyAddress object property => exact Machine.propertyAddress_ne_fault size
  | nextProperty object property => exact Machine.nextProperty_ne_fault size
  | objectName object => exact Machine.objectName_ne_fault
  | statusLine =>
    refine bind_ne_error Machine.readGlobal_ne_fault fun location _ => ?_
    refine bind_ne_error Machine.objectName_ne_fault fun name _ => ?_
    refine bind_ne_error Machine.readGlobal_ne_fault fun first _ => ?_
    refine bind_ne_error Machine.readGlobal_ne_fault fun second _ => ?_
    split <;> exact nofun
  | wordAt address => exact Machine.wordAt_ne_fault (Machine.lt_addressLimit_of_word address)
  | textAt address => exact bind_ne_error ZString.decode_ne_fault fun _ _ => nofun
  | textAtPacked packed => exact ZString.decodePacked_ne_fault
  | looking g => exact nofun

theorem Change.safe {α : Type} {operation : MachineM α} (c : Change operation) (hs : story.Sound) :
    Machine.Safe story operation := by
  cases c with
  | readVariable number => exact Machine.safe_readVariable
  | writeVariable number value => exact Machine.safe_writeVariable hs
  | writeInPlace number value => exact Machine.safe_writeInPlace hs
  | push value => exact Machine.safe_push
  | pop => exact Machine.safe_pop
  | setAttribute object index set => exact Machine.safe_setAttribute hs
  | insertObject object destination => exact Machine.safe_insertObject hs
  | removeObject object => exact Machine.safe_removeObject hs
  | putProperty object property value => exact Machine.safe_putProperty hs
  | writeByte address near value =>
    refine Machine.safe_writeByte hs fun _ => ?_
    simp only [Machine.addressLimit]
    omega
  | appendToTable table text => exact safe_appendToTable hs
  | callPacked packed arguments store => exact Machine.safe_callPacked
  | giveBack value => exact Machine.safe_giveBack hs
  | jump offset => exact Machine.safe_jump

/-- A change of the state that the invariant does not speak of. -/
theorem safe_modify {g : Interpreter H → Interpreter H} (machine : ∀ s, (g s).machine = s.machine)
    (dictionary : ∀ s, (g s).dictionary = s.dictionary) (count : ∀ s, (g s).count = s.count) :
    Safe story (modify g : Play H Unit) :=
  Keeps.modify fun s h =>
    ⟨machine s ▸ h.machine, dictionary s ▸ h.dictionary, count s ▸ h.count_lt⟩

theorem safe_streams {g : Interpreter H → Streams} :
    Safe story (modify fun s => { s with streams := g s } : Play H Unit) :=
  safe_modify (fun _ => rfl) (fun _ => rfl) fun _ => rfl

theorem safe_onHost {α : Type} {operation : H → α × H} : Safe story (onHost operation : Play H α) :=
  fun _ h => ⟨h.machine, h.dictionary, h.count_lt⟩

theorem safe_tellHost {operation : H → H} : Safe story (tellHost operation : Play H Unit) :=
  safe_modify (fun _ => rfl) (fun _ => rfl) fun _ => rfl

theorem safe_refuse {α : Type} {why : DecodeFault} : Safe story (refuse why : Play H α) :=
  fun _ h => ⟨h, nofun⟩

theorem safe_storeLine {line : String} {text parse : UInt16} (hs : story.Sound) :
    Safe story (storeLine line text parse : Play H (List Token)) :=
  Keeps.get_bind fun s h =>
    safe_onMachine
      (Machine.safe_storeLine hs h.dictionary text.toNat_lt parse.toNat_lt) s h

theorem safe_selectStream {stream : Int} {table : Option UInt16} (hs : story.Sound) :
    Safe story (selectStream stream table : Play H Unit) := by
  rw [selectStream]
  refine Keeps.ite (fun _ => safe_streams) fun _ => Keeps.ite (fun _ => safe_streams) fun _ => ?_
  refine Keeps.ite (fun _ => safe_onMachine (Machine.safe_setTranscript hs)) fun _ => ?_
  refine Keeps.ite (fun _ => safe_onMachine (Machine.safe_setTranscript hs)) fun _ => ?_
  refine Keeps.ite (fun _ => ?_) fun _ => Keeps.ite (fun _ => safe_streams) fun _ => Keeps.pure ()
  cases table with
  | none => exact safe_refuse
  | some table =>
    refine Keeps.bind (fun _ h => h) fun selection => Keeps.ite (fun _ => safe_refuse) fun _ => ?_
    have opened : Machine.Safe story (Machine.writeWord table.toNat 0) :=
      Machine.safe_writeWord hs fun _ => Machine.lt_addressLimit_of_word table
    exact Keeps.bind (safe_onMachine opened) fun _ => safe_streams

theorem encode_ne_fault {m : Machine} {pc : Nat} {point : ResumePoint} (hs : story.Sound)
    (hm : m.Sound story) : encode pc point m ≠ .error .fault := by
  refine bind_ne_error ?_ fun snapshot _ => ?_
  · refine bind_ne_error ?_ fun _ _ => nofun
    rw [Snapshot.below_eq (hm.dynamic_le hs)]
    exact nofun
  · refine bind_ne_error ?_ fun original _ => ?_
    · rw [hm.story_eq, Snapshot.pristine_eq hs]
      exact nofun
    · rw [Difference.compress_eq]
      exact nofun

theorem safe_saveState (hs : story.Sound) : Safe story (saveState : Play H (List UInt8)) :=
  Keeps.get_bind fun s h => safe_ask (fun _ hm _ => encode_ne_fault hs hm) s h

theorem safe_provideInput {line : String} (hs : story.Sound) :
    Safe story (provideInput line : Play H Unit) := by
  refine Keeps.get_bind fun s h => ?_
  cases s.state with
  | waiting text parse =>
    refine Keeps.bind (safe_storeLine hs) (fun _ => ?_) s h
    exact safe_modify (fun _ => rfl) (fun _ => rfl) fun _ => rfl
  | running => exact h
  | quit => exact h

/-! ### Fetching an instruction -/

/-- The state in which an instruction that has been fetched is executed. -/
def fetched (s : Interpreter H) (inst : Instruction) : Interpreter H :=
  { s with
    currentPc := s.machine.pc
    machine := { s.machine with pc := s.machine.pc + inst.size }
    count := s.count + 1 }

theorem fetch_eq_ok {s t : Interpreter H} {inst : Instruction} :
    fetch s = .ok inst t ↔
      Instruction.decode s.machine.memory s.machine.pc
          s.machine.story.header.abbreviations.toNat = .ok inst ∧
        s.machine.pc + inst.size < Machine.addressLimit ∧ s.count + 1 < countLimit ∧
        t = s.fetched inst := by
  constructor
  · intro h
    rw [fetch, get_bind] at h
    obtain ⟨inst', u, decoded, h⟩ := bind_eq_ok.mp h
    obtain ⟨decoded, rfl⟩ := ask_eq_ok.mp decoded
    obtain ⟨next, u, moved, h⟩ := bind_eq_ok.mp h
    obtain ⟨moved, rfl⟩ := ask_eq_ok.mp moved
    obtain ⟨short, rfl⟩ := sized_eq_ok.mp moved
    split at h
    · cases h
    · next counted =>
      cases h
      exact ⟨decoded, short, Nat.lt_of_not_le counted, rfl⟩
  · rintro ⟨decoded, short, counted, rfl⟩
    rw [fetch, get_bind]
    refine (bind_of_ok (ask_of_ok decoded)).trans ?_
    refine (bind_of_ok (ask_of_ok (sized_eq_ok.mpr ⟨short, rfl⟩))).trans ?_
    rw [if_neg (Nat.not_le.mpr counted)]
    rfl

theorem Sound.fetched {s : Interpreter H} {inst : Instruction} (h : s.Sound story)
    (short : s.machine.pc + inst.size < Machine.addressLimit)
    (counted : s.count + 1 < countLimit) : (s.fetched inst).Sound story :=
  ⟨{ h.machine with pc_lt := short }, h.dictionary, counted⟩

/-- An instruction that has been decoded lies in memory, so that the address behind it is one. -/
theorem safe_fetch : Safe story (fetch : Play H Instruction) := by
  intro s h
  cases run : fetch s with
  | ok inst t =>
    obtain ⟨-, short, counted, rfl⟩ := fetch_eq_ok.mp run
    exact h.fetched short counted
  | error e t =>
    rw [fetch, get_bind] at run
    rcases bind_eq_error.mp run with failed | ⟨inst, u, decoded, run⟩
    · obtain ⟨failed, rfl⟩ := ask_eq_error.mp failed
      refine ⟨h, ?_⟩
      intro eq
      subst eq
      exact absurd failed Instruction.decode_ne_fault
    · obtain ⟨decoded, rfl⟩ := ask_eq_ok.mp decoded
      rcases bind_eq_error.mp run with failed | ⟨next, u, short, run⟩
      · obtain ⟨failed, rfl⟩ := ask_eq_error.mp failed
        have large := sized_eq_error failed
        have inside := (Instruction.add_size_le decoded).2
        rw [h.machine.size_eq] at inside
        refine ⟨h, fun _ => ?_⟩
        simp only [Machine.imageLimit]
        omega
      · obtain ⟨-, rfl⟩ := ask_eq_ok.mp short
        split at run
        · cases run
          refine ⟨h, fun eq => ?_⟩
          cases eq
        · cases run

/-! ### Instructions of the story -/

variable [Host H]

theorem Composed.safe {α : Type} {x : Play H α} (h : Composed x) (hs : story.Sound) :
    Safe story x := by
  induction h with
  | pure a => exact Keeps.pure a
  | bind _ _ ihx ihf => exact Keeps.bind ihx ihf
  | refuse why => exact safe_refuse
  | failDivision => exact fun _ h => ⟨h, nofun⟩
  | ask q => exact safe_ask fun m hm small => q.ne_fault hm small
  | change c => exact safe_onMachine (c.safe hs)
  | tell s => exact safe_tellHost
  | readLine length => exact safe_onHost
  | selected => exact fun _ h => h
  | selectStream stream table => exact safe_selectStream hs
  | roll range => exact fun _ h => ⟨h.machine, h.dictionary, h.count_lt⟩
  | await text parse => exact safe_modify (fun _ => rfl) (fun _ => rfl) fun _ => rfl
  | storeLine line text parse => exact safe_storeLine hs

/-! ### Instructions on the whole machine -/

theorem safe_prepareHeader (hs : story.Sound) : Safe story (prepareHeader : Play H Unit) := by
  have within (m : Machine) (hm : m.Sound story) : m.inspect Header.flags1Address ≠ .error .fault :=
    Machine.inspect_ne_fault (hm.header_lt hs (by decide))
  refine Keeps.bind (safe_ask fun m hm _ => within m hm) fun flags1 => ?_
  refine Keeps.get_bind fun s h => safe_onMachine ?_ s h
  refine Keeps.bind (Machine.safe_poke hs (by decide)) fun _ => ?_
  refine Keeps.bind (Machine.safe_poke hs (by decide)) fun _ => ?_
  refine Keeps.bind (Machine.safe_poke hs (by decide)) fun _ => ?_
  exact Keeps.bind (Machine.safe_poke hs (by decide)) fun _ => Machine.safe_poke hs (by decide)

theorem safe_restart (hs : story.Sound) : Safe story (restart : Play H Unit) := by
  refine Keeps.bind (safe_onMachine (Machine.safe_restart hs)) fun _ => ?_
  refine Keeps.bind (safe_prepareHeader hs) fun _ => ?_
  exact Keeps.bind (safe_modify (fun _ => rfl) (fun _ => rfl) fun _ => rfl) fun _ => safe_tellHost

theorem safe_branchIf {inst : Instruction} {condition : Bool} (hs : story.Sound) :
    Safe story (branchIf inst condition : Play H Outcome) :=
  (Composed.branchIf condition).safe hs

theorem safe_executeSave {inst : Instruction} (hs : story.Sound) :
    Safe story (executeSave inst : Play H Outcome) := by
  refine Keeps.get_bind fun s h => ?_
  refine Keeps.bind (safe_ask fun _ hm _ => encode_ne_fault hs hm) (fun bytes => ?_) s h
  exact Keeps.bind safe_onHost fun saved => safe_branchIf hs

theorem safe_takeOver {snapshot : Snapshot} (hs : story.Sound) (fits : snapshot.Fits story) :
    Safe story (takeOver snapshot : Play H Unit) := by
  refine Keeps.bind (safe_onMachine (Machine.safe_keepingSessionBits hs fun m hm => ?_)) fun _ => ?_
  · rw [Snapshot.apply_eq (fits.length_le hs hm.plays)]
    exact fits.sound_appliedTo hs hm
  · refine Keeps.bind (safe_prepareHeader hs) fun _ => ?_
    exact safe_modify (fun _ => rfl) (fun _ => rfl) fun _ => rfl

theorem kept_finishSave {s : Interpreter H} {inst : Instruction} (hs : story.Sound)
    (h : s.Sound story) (short : s.machine.pc + inst.size < Machine.addressLimit) :
    Kept (Sound story) (fun _ => Machine.imageLimit ≤ story.image.size) (finishSave inst s) := by
  have moved : ({ s with
      currentPc := s.machine.pc
      machine := { s.machine with pc := s.machine.pc + inst.size } } : Interpreter H).Sound story :=
    ⟨{ h.machine with pc_lt := short }, h.dictionary, h.count_lt⟩
  exact Keeps.bind (safe_branchIf hs) (fun _ => Keeps.pure ()) _ moved

theorem kept_resume {s : Interpreter H} {snapshot : Snapshot} {inst : Option Instruction}
    (hs : story.Sound) (h : s.Sound story) (fits : snapshot.Fits story)
    (short : ∀ i, inst = some i → snapshot.head.pc + i.size < Machine.addressLimit) :
    Kept (Sound story) (fun _ => Machine.imageLimit ≤ story.image.size)
      (resume snapshot inst s) := by
  obtain ⟨m, inState, run⟩ := takeOver_eq hs h.machine fits
  have tookOver := (safe_takeOver hs fits s h).state_of_ok run
  have waiting (text parse) : Safe story (await text parse : Play H Unit) :=
    safe_modify (fun _ => rfl) (fun _ => rfl) fun _ => rfl
  rw [resume, bind_of_ok run]
  cases inst with
  | none =>
    cases snapshot.head.resume with
    | atPc | saveInstruction => exact tookOver
    | awaitingInput text parse => exact waiting text parse _ tookOver
  | some i =>
    refine (kept_finishSave hs tookOver ?_).bind fun _ t _ ht => ?_
    · show m.pc + i.size < Machine.addressLimit
      rw [inState.pc_eq]
      exact short i rfl
    · cases snapshot.head.resume with
      | atPc | saveInstruction => exact ht
      | awaitingInput text parse => exact waiting text parse t ht

theorem safe_restoreState {bytes : List UInt8} (hs : story.Sound) :
    Safe story (restoreState bytes : Play H Unit) := by
  intro s h
  have reading : Safe story (ask (Snapshot.ofBytes bytes) : Play H Snapshot) :=
    safe_ask fun _ hm _ => Snapshot.ofBytes_ne_fault hs hm
  refine (reading s h).bind fun snapshot t read _ => ?_
  obtain ⟨read, rfl⟩ := ask_eq_ok.mp read
  have fits := Snapshot.fits_of_ofBytes hs h.machine read
  have unfinished : Safe story (ask snapshot.unfinished : Play H (Option Instruction)) :=
    safe_ask fun _ hm small => Snapshot.unfinished_ne_fault fits hs hm small
  refine (unfinished t h).bind fun inst u found _ => ?_
  obtain ⟨found, rfl⟩ := ask_eq_ok.mp found
  refine kept_resume hs h fits fun i eq => ?_
  subst eq
  obtain ⟨-, save⟩ := Snapshot.unfinished_eq_some found
  obtain ⟨_, -, -, -, -, short⟩ := Snapshot.saveInstruction_eq_ok save
  exact short

theorem safe_executeRestore {inst : Instruction} (hs : story.Sound) :
    Safe story (executeRestore inst : Play H Outcome) :=
  keeps_executeRestore safe_onHost (fun _ => safe_restoreState hs) (safe_branchIf hs)

/-! ### Steps and requests -/

theorem safe_execute {inst : Instruction} (hs : story.Sound) :
    Safe story (execute inst : Play H Outcome) := by
  refine Keeps.bind ((Composed.resolveAll inst.operands).safe hs) fun _ => ?_
  exact keeps_executeWith (fun h => h.safe hs) (safe_executeSave hs) (safe_executeRestore hs)
    (safe_restart hs)

theorem safe_step (hs : story.Sound) : Safe story (step : Play H Outcome) :=
  keeps_step safe_fetch (fun _ => safe_execute hs) fun _ h => ⟨h.machine, h.dictionary, h.count_lt⟩

/-- Every request keeps the invariant, and faults at most when it may. -/
theorem safe_perform (request : Request H) (hs : story.Sound) : Safe story request.perform := by
  cases request with
  | step => exact Keeps.bind (safe_step hs) fun _ => Keeps.pure ()
  | run =>
    exact Keeps.bind (fun s h => keeps_runFor (safe_step hs) s h) fun _ => Keeps.pure ()
  | provideInput line => exact safe_provideInput hs
  | callRoutine packed arguments =>
    have calling : Safe story (callRoutine packed arguments : Play H (Option UInt16)) :=
      keeps_callRoutine (safe_onMachine Machine.safe_callPacked) (safe_step hs)
    exact Keeps.bind calling fun _ => Keeps.pure ()
  | restart => exact safe_restart hs
  | saveState => exact Keeps.bind (safe_saveState hs) fun _ => Keeps.pure ()
  | restoreState bytes => exact safe_restoreState hs
  | changeHost change => exact safe_tellHost

end ZMachine.Interpreter
