import ZMachine.Proofs.Interpreter.Conclusion
import ZMachine.Proofs.Interpreter.Reachable

/-!
# Routines and their callers

A routine that has been called cannot reach the frames below its own. While it runs, with all the
routines that it calls in turn, the frames of its callers stand as they were, and its own frame
keeps the place and the variable of the call (`UnderWay`): each step works in the innermost frame,
puts one on top of it, or takes it away and works in the one below. So when as few frames as before
the call are left for the first time, the routine has just given back its value, and the caller goes
on behind the call with nothing but that value (`isolated_of_course`).
-/

namespace ZMachine.Interpreter

/-- What one move of a game was. -/
inductive Event where
  | stepped (outcome : Outcome)
  | provided (line : String)

variable {H : Type}

/-- A successful step that neither restores nor restarts, or a line that has been provided. -/
inductive Move [Host H] : Interpreter H → Event → Interpreter H → Prop
  | step {s t u : Interpreter H} {inst : Instruction} {outcome : Outcome}
      (fetched : fetch s = .ok inst t) (notRestore : inst.opcode ≠ .restore)
      (notRestart : inst.opcode ≠ .restart) (run : step s = .ok outcome u) :
      Move s (.stepped outcome) u
  | provideInput {s u : Interpreter H} (line : String) (run : provideInput line s = .ok () u) :
      Move s (.provided line) u

/-- Moves from one state to another, of which the last one, and no earlier one, leads to a call
stack of the depth. -/
inductive Course [Host H] (depth : Nat) : Interpreter H → Event → Interpreter H → Prop
  | last {s u : Interpreter H} {event : Event} (move : Move s event u)
      (back : u.machine.frames.depth = depth) : Course depth s event u
  | more {s t u : Interpreter H} {first event : Event} (move : Move s first t)
      (away : t.machine.frames.depth ≠ depth) (rest : Course depth t event u) :
      Course depth s event u

theorem sameRoutine_of_provideInput {s u : Interpreter H} {line : String}
    (run : provideInput line s = .ok () u) : s.machine.SameRoutine u.machine := by
  rw [provideInput, get_bind] at run
  cases state : s.state with
  | waiting text parse =>
    rw [state] at run
    obtain ⟨tokens, mid, stored, last⟩ := bind_eq_ok.mp run
    have same := sameRoutine_of_storeLine stored
    cases last
    exact same
  | running | quit =>
    rw [state] at run
    cases run
    exact .refl _

/-- A routine that is to return to an address, with its result for a variable, has not returned to
the frames below it. -/
def UnderWay (returnPc : Nat) (store : Option UInt8) (below : List Frame) (stack : CallStack) :
    Prop :=
  ∃ above frame, stack.innermost :: stack.callers = above ++ frame :: below ∧
    frame.returnPc = returnPc ∧ frame.store = store

/-- The routine has returned: the caller has its value, and goes on behind the call. -/
structure Returned (returnPc : Nat) (store : Option UInt8) (below : List Frame) (value : UInt16)
    (m : Machine) : Prop where
  pc_eq : m.pc = returnPc
  frames : ∃ caller, below = caller :: m.frames.callers ∧
    ∀ number, store = some number → m.Received number value caller

namespace UnderWay

variable {returnPc : Nat} {store : Option UInt8} {below : List Frame} {m m' : Machine}

theorem depth_le (h : UnderWay returnPc store below m.frames) :
    below.length ≤ m.frames.depth := by
  obtain ⟨above, frame, eq, -⟩ := h
  have lengths := congrArg List.length eq
  simp only [List.length_cons, List.length_append] at lengths
  rw [CallStack.depth]
  omega

theorem sameRoutine (h : UnderWay returnPc store below m.frames) (same : m.SameRoutine m') :
    UnderWay returnPc store below m'.frames := by
  obtain ⟨above, frame, eq, pc, number⟩ := h
  cases above with
  | nil =>
    obtain ⟨rfl, callers⟩ := List.cons.inj eq
    exact ⟨[], m'.frames.innermost, by rw [same.callers_eq, callers]; rfl,
      same.returnPc_eq.trans pc, same.store_eq.trans number⟩
  | cons first above =>
    obtain ⟨-, callers⟩ := List.cons.inj eq
    exact ⟨m'.frames.innermost :: above, frame, by rw [same.callers_eq, callers]; rfl, pc, number⟩

/-- Only the return of the routine itself ends it. -/
theorem giveBack {value : UInt16} (h : UnderWay returnPc store below m.frames)
    (run : Machine.giveBack value m = .ok () m') :
    UnderWay returnPc store below m'.frames ∨ Returned returnPc store below value m' := by
  obtain ⟨above, frame, eq, pc, number⟩ := h
  obtain ⟨caller, callers, callers_eq, same, received⟩ := Machine.of_giveBack run
  cases above with
  | nil =>
    obtain ⟨rfl, rest⟩ := List.cons.inj eq
    refine Or.inr ⟨same.pc_eq.trans pc, caller, ?_, fun n store => received n (number.trans store)⟩
    rw [same.callers_eq, ← rest, callers_eq]
    rfl
  | cons first above =>
    obtain ⟨-, rest⟩ := List.cons.inj eq
    have left : UnderWay returnPc store below (m.left caller callers).frames :=
      ⟨above, frame, callers_eq.symm.trans rest, pc, number⟩
    exact Or.inl (left.sameRoutine same)

theorem concludes {inst : Instruction} {outcome : Outcome}
    (h : UnderWay returnPc store below m.frames) (concluded : Concludes inst m outcome m') :
    UnderWay returnPc store below m'.frames ∨
      ∃ value, outcome = .returned value ∧ Returned returnPc store below value m' := by
  cases concluded with
  | goesOn same => exact Or.inl (h.sameRoutine same)
  | waits same => exact Or.inl (h.sameRoutine same)
  | quits same => exact Or.inl (h.sameRoutine same)
  | jumps same offset run =>
    have there := h.sameRoutine same
    cases run
    exact Or.inl there
  | calls same _ packed arguments run =>
    obtain rfl := Machine.eq_of_callPacked run
    obtain ⟨above, frame, eq, pc, number⟩ := h.sameRoutine same
    exact Or.inl ⟨_ :: above, frame, congrArg (List.cons _) eq, pc, number⟩
  | returns same value run =>
    rcases (h.sameRoutine same).giveBack run with still | returned
    · exact Or.inl still
    · exact Or.inr ⟨value, rfl, returned⟩

theorem move [Host H] {s u : Interpreter H} {event : Event}
    (h : UnderWay returnPc store below s.machine.frames) (moved : Move s event u) :
    UnderWay returnPc store below u.machine.frames ∨
      ∃ value, event = .stepped (.returned value) ∧
        Returned returnPc store below value u.machine := by
  cases moved with
  | @step t _ inst outcome fetched notRestore notRestart run =>
    have concluded := concludes_of_step fetched notRestore notRestart run
    obtain ⟨-, -, -, rfl⟩ := fetch_eq_ok.mp fetched
    have before : UnderWay returnPc store below (s.fetched inst).machine.frames := h
    rcases before.concludes concluded with still | ⟨value, rfl, returned⟩
    · exact Or.inl still
    · exact Or.inr ⟨value, rfl, returned⟩
  | provideInput line run =>
    exact Or.inl (h.sameRoutine (sameRoutine_of_provideInput run))

/-- By induction on the moves: until the routine returns there are too many frames. -/
theorem course [Host H] {s u : Interpreter H} {event : Event} {depth : Nat}
    (h : UnderWay returnPc store below s.machine.frames) (deep : below.length = depth + 1)
    (course : Course depth s event u) :
    ∃ value, event = .stepped (.returned value) ∧
      Returned returnPc store below value u.machine := by
  induction course with
  | last move back =>
    rcases h.move move with still | returned
    · have le := still.depth_le
      omega
    · exact returned
  | more move away rest ih =>
    rcases h.move move with still | ⟨value, -, returned⟩
    · exact ih still
    · obtain ⟨caller, eq, -⟩ := returned.frames
      rw [eq, List.length_cons] at deep
      exact absurd (Nat.succ.inj deep) away

end UnderWay

variable [Host H]

/-- A call puts the frame of the routine on top of that of its caller. -/
theorem underWay_of_called {s t s₀ : Interpreter H} {call : Instruction}
    (fetched : fetch s = .ok call t) (called : step s = .ok .called s₀) :
    ∃ caller number, call.store = some number ∧
      s₀.machine.frames.callers = caller :: s.machine.frames.callers ∧
      UnderWay (s.machine.pc + call.size) (some number) (caller :: s.machine.frames.callers)
        s₀.machine.frames := by
  have isCall := isCall_of_step fetched called
  have concluded := concludes_of_step fetched (by simp [isCall]) (by simp [isCall]) called
  obtain ⟨decoded, -, -, rfl⟩ := fetch_eq_ok.mp fetched
  obtain ⟨number, store⟩ := Instruction.exists_store decoded (by rw [isCall]; rfl)
  cases concluded with
  | @calls mid _ same _ packed arguments run =>
    obtain entered := Machine.eq_of_callPacked run
    have callers : s₀.machine.frames.callers =
        mid.frames.innermost :: s.machine.frames.callers := by
      rw [entered, Machine.entered, same.callers_eq]
      rfl
    refine ⟨mid.frames.innermost, number, store, callers, [], s₀.machine.frames.innermost, ?_⟩
    refine ⟨?_, ?_, ?_⟩
    · rw [callers]
      rfl
    · rw [entered]
      exact same.pc_eq
    · rw [entered]
      exact store

/-- Once a routine that has been called has returned, the frames below that of its caller are those
from before the call; the caller's frame is what it was after the call, but for the value that the
routine has given back, which it has taken for the variable of the call; and it goes on behind the
call. -/
theorem isolated_of_course {s t s₀ u : Interpreter H} {call : Instruction} {event : Event}
    (fetched : fetch s = .ok call t) (called : step s = .ok .called s₀)
    (course : Course s.machine.frames.depth s₀ event u) :
    ∃ caller number value,
      s₀.machine.frames.callers = caller :: s.machine.frames.callers ∧
      call.store = some number ∧ event = .stepped (.returned value) ∧
      u.machine.frames.callers = s.machine.frames.callers ∧
      u.machine.pc = s.machine.pc + call.size ∧ u.machine.Received number value caller := by
  obtain ⟨caller, number, store, callers, underWay⟩ := underWay_of_called fetched called
  obtain ⟨value, returned, pc, caller', frames, received⟩ :=
    underWay.course (List.length_cons ..) course
  obtain ⟨rfl, same⟩ := List.cons.inj frames
  exact ⟨caller, number, value, callers, store, returned, same.symm, pc, received number rfl⟩

/-- The image of a story that calls the routine at 0x50, which returns 1, for its first global. -/
def callingImage : Memory :=
  let header := Memory.putBytes (Array.replicate 88 0) 0x00
    [3, 0, 0, 0, 0, 0, 0x00, 0x40, 0x00, 0x54, 0, 0, 0x00, 0x48, 0x00, 0x4C]
  ((header.putBytes 0x40 [0xE0, 0x3F, 0x00, 0x28, 0x10]).putBytes 0x50 [0x00, 0xB0]).put 0x55 4

def callingStory : Story :=
  { image := callingImage, header := Header.ofMemory callingImage }

def callingStart : Interpreter Scripted :=
  loadedState callingStory {} {} (.always 0)
    { separators := [], entryLength := 4, entryCount := 0, entries := 0x58 }

def callingRoutine : Instruction :=
  { opcode := .call, form := .var, operands := [.large 0x28], store := some 16, branch := none
    text := none, size := 5 }

def returningTrue : Instruction :=
  { opcode := .rtrue, form := .short, operands := [], store := none, branch := none, text := none
    size := 1 }

theorem callingStart_isolated :
    let called := after step callingStart
    let returned := after step called
    ∃ caller number value,
      called.machine.frames.callers = caller :: callingStart.machine.frames.callers ∧
      callingRoutine.store = some number ∧
      Event.stepped (.returned 1) = .stepped (.returned value) ∧
      returned.machine.frames.callers = callingStart.machine.frames.callers ∧
      returned.machine.pc = callingStart.machine.pc + callingRoutine.size ∧
      returned.machine.Received number value caller := by
  intro called returned
  have fetched : fetch callingStart = .ok callingRoutine (callingStart.fetched callingRoutine) :=
    fetch_eq_ok.mpr ⟨by decide +kernel, by decide +kernel, by decide +kernel, rfl⟩
  have calls : step callingStart = .ok .called called := eq_ok_of_result (by decide +kernel)
  have fetched' : fetch called = .ok returningTrue (called.fetched returningTrue) :=
    fetch_eq_ok.mpr ⟨by decide +kernel, by decide +kernel, by decide +kernel, rfl⟩
  have returns : step called = .ok (.returned 1) returned := eq_ok_of_result (by decide +kernel)
  have back : returned.machine.frames.depth = callingStart.machine.frames.depth := by
    decide +kernel
  exact isolated_of_course fetched calls (.last (.step fetched' nofun nofun returns) back)

end ZMachine.Interpreter
