import ZMachine.Proofs.Machine.InFrame
import ZMachine.Proofs.Machine.Safety

/-!
# Staying in a routine

Operations that work in the running frame stay in the running routine (`InFrame.stays`): they change
memory, locals and the evaluation stack, but not the program counter, the callers, nor what the
frame says of the return (`Stays`). The others enter a routine, leave one (`giveBack_eq`), or jump.
Entering and leaving only move frames, and the value that a routine gives back goes to the frame it
returns to, which takes it for a variable (`Received`).
-/

namespace ZMachine

namespace Machine

/-- The running routine is the same, at the same place. -/
structure SameRoutine (m₀ m : Machine) : Prop where
  story_eq : m.story = m₀.story
  pc_eq : m.pc = m₀.pc
  callers_eq : m.frames.callers = m₀.frames.callers
  returnPc_eq : m.frames.innermost.returnPc = m₀.frames.innermost.returnPc
  store_eq : m.frames.innermost.store = m₀.frames.innermost.store

theorem SameRoutine.refl (m : Machine) : SameRoutine m m :=
  ⟨rfl, rfl, rfl, rfl, rfl⟩

theorem SameRoutine.trans {a b c : Machine} (h : SameRoutine a b) (h' : SameRoutine b c) :
    SameRoutine a c where
  story_eq := h'.story_eq.trans h.story_eq
  pc_eq := h'.pc_eq.trans h.pc_eq
  callers_eq := h'.callers_eq.trans h.callers_eq
  returnPc_eq := h'.returnPc_eq.trans h.returnPc_eq
  store_eq := h'.store_eq.trans h.store_eq

/-- The operation stays in the running routine, also when it fails. -/
def Stays {α : Type} (operation : MachineM α) : Prop :=
  ∀ m₀, Keeps (SameRoutine m₀) (fun _ => True) operation

section Operations

variable {α : Type} {x : MachineM α} {m m' : Machine}

theorem Stays.of_ok {a : α} (h : Stays x) (run : x m = .ok a m') : SameRoutine m m' :=
  (h m m (.refl m)).state_of_ok run

theorem Stays.query (f : Machine → Except MachineError α) : Stays (query f) :=
  fun _ => Keeps.query fun _ _ _ => trivial

theorem SameRoutine.withStack (h : SameRoutine m m') (stack : List UInt16) :
    SameRoutine m (m'.withStack stack) :=
  ⟨h.story_eq, h.pc_eq, h.callers_eq, h.returnPc_eq, h.store_eq⟩

/-- What changes memory alone stays in the routine. -/
theorem stays_poke (address : Nat) (value : UInt8) : Stays (poke address value) := by
  intro m₀ m same
  rw [poke]
  split
  · exact ⟨same.story_eq, same.pc_eq, same.callers_eq, same.returnPc_eq, same.store_eq⟩
  · exact ⟨same, fun _ => trivial⟩

/-- What works in the running frame stays in the routine. -/
theorem InFrame.stays (h : InFrame x) : Stays x := by
  induction h with
  | pure a => exact fun _ => Keeps.pure a
  | bind _ _ first rest => exact fun m₀ => Keeps.bind (first m₀) fun a => rest a m₀
  | throw e => exact fun _ _ same => ⟨same, fun _ => trivial⟩
  | query => exact .query _
  | looking _ _ rest => exact fun m₀ => Keeps.get_bind fun m same => rest m m₀ m same
  | poke address value => exact stays_poke address value
  | writeByte address value =>
    intro m₀ m same
    rw [Machine.writeByte]
    split
    · exact ⟨same, fun _ => trivial⟩
    · split
      · exact ⟨same, fun _ => trivial⟩
      · exact stays_poke address value m₀ m same
  | push value =>
    intro m₀ m same
    rw [Machine.push]
    split
    · exact ⟨same, fun _ => trivial⟩
    · exact same.withStack _
  | pop =>
    intro m₀ m same
    rw [Machine.pop]
    split
    · exact ⟨same, fun _ => trivial⟩
    · exact same.withStack _
  | replaceTop value =>
    intro m₀ m same
    rw [Machine.replaceTop]
    split
    · exact ⟨same, fun _ => trivial⟩
    · exact same.withStack _
  | writeLocal number value =>
    intro m₀ m same
    rw [Machine.writeLocal]
    split
    · exact ⟨same, fun _ => trivial⟩
    · exact ⟨same.story_eq, same.pc_eq, same.callers_eq, same.returnPc_eq, same.store_eq⟩

end Operations

/-! ### Calls and returns -/

variable {m m' : Machine} {packed value : UInt16} {arguments : List UInt16} {store : Option UInt8}
  {number : UInt8} {caller : Frame} {callers : List Frame}

theorem length_localDefaults (m : Machine) (routine count : Nat) :
    (m.localDefaults routine count).length = count := by
  rw [localDefaults, List.length_map, List.length_range]

/-- As many arguments as there are locals, and the defaults of the others. -/
theorem overrideLocals_eq (defaults arguments : List UInt16) :
    overrideLocals defaults arguments =
      arguments.take defaults.length ++ defaults.drop arguments.length := by
  fun_induction overrideLocals defaults arguments with
  | case1 arguments => simp
  | case2 defaults => simp
  | case3 first defaults argument arguments ih => simp [ih]

/-- The machine at the first instruction of a routine that it has called. -/
def entered (m : Machine) (routine : Nat) (arguments : List UInt16) (store : Option UInt8) :
    Machine :=
  let count := (m.memory.byte routine).toNat
  let frame : Frame :=
    { returnPc := m.pc
      store
      locals := overrideLocals (m.localDefaults routine count) arguments
      stack := [] }
  { m with
    frames := { innermost := frame, callers := m.frames.innermost :: m.frames.callers }
    pc := routine + 1 + 2 * count }

theorem eq_of_callPacked (h : callPacked packed arguments store m = .ok () m') :
    m' = m.entered (packed.toNat * 2) arguments store := by
  obtain ⟨routine, asked, found, run⟩ := bind_eq_ok.mp h
  obtain ⟨found, rfl⟩ := query_eq_ok.mp found
  simp only [routineAddress] at found
  split at found
  · cases found
  · cases found
    simp only [enter] at run
    split at run
    · cases run
    · split at run
      · cases run
      · split at run
        · cases run
        · cases run
          rfl

/-- The machine back in the caller of the running routine. -/
def left (m : Machine) (caller : Frame) (callers : List Frame) : Machine :=
  { m with frames := { innermost := caller, callers }, pc := m.frames.innermost.returnPc }

theorem giveBack_eq (eq : m.frames.callers = caller :: callers) :
    giveBack value m =
      match m.frames.innermost.store with
      | some number => writeVariable number value (m.left caller callers)
      | none => .ok () (m.left caller callers) := by
  have run : leave m = .ok m.frames.innermost (m.left caller callers) := by
    simp only [leave, eq]
    rfl
  rw [giveBack, bind_of_ok run]
  cases m.frames.innermost.store <;> rfl

theorem giveBack_topLevel (value : UInt16) (top : m.frames.depth = 0) :
    giveBack value m = .error (.undecodable m.pc .topLevelReturn) m := by
  have none : m.frames.callers = [] := List.eq_nil_of_length_eq_zero top
  exact bind_of_error (by simp only [leave, none])

/-- The frame that the machine is in has taken a value for a variable. A local that it has not
declared takes nothing. -/
def Received (number : UInt8) (value : UInt16) (caller : Frame) (m : Machine) : Prop :=
  if number = 0 then m.frames.innermost = { caller with stack := value :: caller.stack }
  else if number < 16 then
    m.frames.innermost =
      if number.toNat ≤ caller.locals.length then
        { caller with locals := caller.locals.set (number.toNat - 1) value }
      else caller
  else m.frames.innermost = caller ∧ m.readGlobal number = .ok value

theorem readGlobal_of_writeGlobal (h : writeGlobal number value m = .ok () m') :
    m'.frames = m.frames ∧ m'.readGlobal number = .ok value := by
  rw [writeGlobal_eq, get_bind] at h
  split at h
  · cases h
  · next isGlobal =>
    obtain ⟨word, frames, story⟩ := word_of_writeWord h
    have address : m'.globalAddress number = m.globalAddress number := by
      rw [globalAddress, globalAddress, story]
    refine ⟨frames, ?_⟩
    rw [readGlobal_eq, if_neg isGlobal, address, wordAt, if_pos (m.globalAddress_lt number), word]

theorem received_of_writeVariable (h : writeVariable number value m = .ok () m') :
    Received number value m.frames.innermost m' := by
  rw [writeVariable] at h
  rw [Received]
  by_cases stack : number = 0
  · rw [if_pos stack, push] at h
    rw [if_pos stack]
    split at h
    · cases h
    · cases h
      rfl
  · rw [if_neg stack] at h ⊢
    by_cases isLocal : number < 16
    · rw [if_pos isLocal, writeLocal, if_neg (toNat_ne_zero_of_ne stack)] at h
      cases h
      rw [if_pos isLocal]
      split
      · rfl
      · next undeclared =>
        show ({ m.frames.innermost with
          locals := m.frames.innermost.locals.set (number.toNat - 1) value } : Frame) = _
        rw [List.set_eq_of_length_le (by omega)]
    · rw [if_neg isLocal] at h ⊢
      obtain ⟨frames, read⟩ := readGlobal_of_writeGlobal h
      exact ⟨congrArg CallStack.innermost frames, read⟩

theorem memory_of_readVariable (h : readVariable number m = .ok value m') :
    m'.memory = m.memory := by
  rw [readVariable] at h
  split at h
  · rw [pop] at h
    split at h
    · cases h
    · cases h
      rfl
  · split at h
    · rw [(query_eq_ok.mp h).2]
    · rw [(query_eq_ok.mp h).2]

/-- A routine that gives back a value goes on behind its call, in the frame of its caller. -/
theorem of_giveBack (h : giveBack value m = .ok () m') :
    ∃ caller callers, m.frames.callers = caller :: callers ∧
      SameRoutine (m.left caller callers) m' ∧
      ∀ number, m.frames.innermost.store = some number → Received number value caller m' := by
  cases eq : m.frames.callers with
  | nil =>
    rw [giveBack_topLevel value (by rw [CallStack.depth, eq]; rfl)] at h
    cases h
  | cons caller callers =>
    rw [giveBack_eq eq] at h
    refine ⟨caller, callers, rfl, ?_⟩
    cases store : m.frames.innermost.store with
    | none =>
      rw [store] at h
      cases h
      refine ⟨.refl _, ?_⟩
      intro number eq
      cases eq
    | some number =>
      rw [store] at h
      refine ⟨(inFrame_writeVariable number value).stays.of_ok h, ?_⟩
      rintro _ ⟨⟩
      exact received_of_writeVariable h

end Machine

end ZMachine
