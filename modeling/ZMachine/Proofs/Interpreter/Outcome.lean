import ZMachine.Proofs.Interpreter.Isolation

/-!
# What an outcome tells

Whoever has a story take single steps learns from the outcome alone what has become of the program
counter, the frames and the run state (`Tells`): the story goes on behind the instruction, or at the
place of a jump, or in a routine that it has called, or back in the caller; or it waits for a line,
or has quit. All instructions but `restore` and `restart` tell so (`told_of_step`). What they have
done to the machine is known from `Concludes`; here it is added that they leave the run state alone,
that they wait only for want of a line, and from where a jump and a call know where to go.
-/

namespace ZMachine.Interpreter

variable {H K : Type} {inst : Instruction} {values : List UInt16} {s t u v : Interpreter H}
  {outcome : Outcome}

/-! ### What there is to tell -/

/-- The story goes on at an address, and the frames below the innermost one are the same. -/
structure Stands (pc : Nat) (s u : Interpreter H) : Prop where
  pc_eq : u.machine.pc = pc
  callers_eq : u.machine.frames.callers = s.machine.frames.callers

/-- How far an instruction jumps: as its operand says if it is `jump`, and else as its branch
says. -/
def JumpsBy (inst : Instruction) (values : List UInt16) (offset : Int) : Prop :=
  if inst.opcode = .jump then ∃ operand, values[0]? = some operand ∧ offset = Word.signed operand
  else ∃ branch, inst.branch = some branch ∧ offset = branch.offset

/-- The routine that the first operand names has got a frame on top of that of its caller. The frame
goes back to `next`; its locals are those that the routine declares, the first of them with the
values of the other operands. The story goes on behind the declaration. -/
def Enters (next : Nat) (store : Option UInt8) (values : List UInt16) (caller : Frame)
    (s u : Interpreter H) : Prop :=
  ∃ packed arguments, values = packed :: arguments ∧
    let routine := packed.toNat * 2
    let count := (s.machine.memory.byte routine).toNat
    let defaults := s.machine.localDefaults routine count
    let frame : Frame :=
      { returnPc := next, store
        locals := arguments.take count ++ defaults.drop arguments.length
        stack := [] }
    u.machine.frames =
        { innermost := frame, callers := caller :: s.machine.frames.callers } ∧
      u.machine.pc = routine + 1 + 2 * count

/-- The running routine has given back a value: its frame is gone, the story goes on where the frame
said, and the caller has taken the value for the variable that the frame said. -/
def GivesBack (value : UInt16) (s u : Interpreter H) : Prop :=
  ∃ caller, s.machine.frames.callers = caller :: u.machine.frames.callers ∧
    u.machine.pc = s.machine.frames.innermost.returnPc ∧
    match s.machine.frames.innermost.store with
    | some number => u.machine.Received number value caller
    | none => u.machine.frames.innermost = caller

/-- Where the instruction has left the machine, by its outcome. The state `mid` is the one in which
its operands had been read, which may have taken them off the stack. -/
def Moves (inst : Instruction) (values : List UInt16) (s mid u : Interpreter H) : Outcome → Prop
  | .continued | .waiting | .quit => Stands (s.machine.pc + inst.size) s u
  | .branched =>
    ∃ offset, JumpsBy inst values offset ∧
      Stands ((↑(s.machine.pc + inst.size) + offset - 2) % Machine.addressLimit).toNat s u
  | .called => Enters (s.machine.pc + inst.size) inst.store values mid.machine.frames.innermost s u
  | .returned value => GivesBack value s u

/-- The run state, by the outcome: the story waits for a line for its two buffers, or has quit, or
is in the state in which it was. -/
def Leaves (values : List UInt16) (s u : Interpreter H) : Outcome → Prop
  | .waiting => ∃ text, values[0]? = some text ∧ u.state = .waiting text (values.getD 1 0)
  | .quit => u.state = .quit
  | _ => u.state = s.state

/-- The host, which gets the status line first, has no line for an instruction with these
operands. -/
def Unanswered [Host H] (values : List UInt16) (s : Interpreter H) : Prop :=
  ∃ text name status, values[0]? = some text ∧ statusLine s.machine = .ok (name, status) ∧
    (Host.read (Host.updateStatus s.host (String.ofList name) status)
      (s.machine.textCapacity text.toNat)).1 = none

/-- What the outcome of an instruction tells of the states before and behind it. -/
structure Tells [Host H] (inst : Instruction) (values : List UInt16) (s mid u : Interpreter H)
    (outcome : Outcome) : Prop where
  moves : Moves inst values s mid u outcome
  leaves : Leaves values s u outcome
  waits_iff : outcome = .waiting ↔ inst.opcode = .sread ∧ Unanswered values mid

/-! ### The status line -/

theorem showStatus_eq_ok [Host H] :
    showStatus s = .ok () t ↔
      ∃ name status, statusLine s.machine = .ok (name, status) ∧
        t = { s with host := Host.updateStatus s.host (String.ofList name) status } := by
  constructor
  · intro shown
    obtain ⟨⟨name, status⟩, mid, asked, told⟩ := bind_eq_ok.mp shown
    obtain ⟨line, rfl⟩ := ask_eq_ok.mp asked
    cases told
    exact ⟨name, status, line, rfl⟩
  · rintro ⟨name, status, line, rfl⟩
    exact bind_of_ok (ask_of_ok line)

/-- Operands that are read may be taken off the stack, but memory is as it was. -/
theorem memory_of_resolveAll {operands : List Operand}
    (run : resolveAll operands s = .ok values t) : t.machine.memory = s.machine.memory := by
  induction operands generalizing s values with
  | nil =>
    cases run
    rfl
  | cons first rest ih =>
    obtain ⟨value, mid, resolved, run⟩ := bind_eq_ok.mp run
    obtain ⟨others, last, ran, done⟩ := bind_eq_ok.mp run
    cases done
    rw [ih ran]
    cases first with
    | large value =>
      cases resolved
      rfl
    | small value =>
      cases resolved
      rfl
    | var number =>
      obtain ⟨m, read, rfl⟩ := onMachine_eq_ok.mp resolved
      exact Machine.memory_of_readVariable read

/-! ### The run state -/

section RunState

variable [Host H] [Host K]

theorem Works.maintains_state {α : Type} {x : Play H α} {y : Play K α} {state : RunState}
    (h : Works x y) : Maintains (fun s => s.state = state) x := by
  induction h with
  | pure a => exact Keeps.pure a
  | bind _ _ first rest => exact Keeps.bind first rest
  | refuse why => exact fun _ eq => ⟨eq, fun _ => trivial⟩
  | ask q => exact maintains_onMachine (fun _ eq => eq) _
  | change c _ => exact maintains_onMachine (fun _ eq => eq) _
  | tell notice => exact fun _ eq => eq
  | selected => exact fun _ eq => eq
  | selectStream stream table =>
    exact maintains_selectStream_of_streams (fun _ eq => eq) (fun _ eq => eq) stream table

theorem Works.state_eq {α : Type} {x : Play H α} {y : Play K α} {a : α} (h : Works x y)
    (run : x s = .ok a t) : t.state = s.state :=
  (h.maintains_state s rfl).state_of_ok run

/-- An instruction that only works in the routine before it ends neither waits nor changes the run
state; to quit is left to the step. -/
theorem Ending.quiet {x : Play H Outcome} {y : Play K Outcome} (h : Ending inst x y)
    (run : x s = .ok outcome t) : outcome ≠ .waiting ∧ t.state = s.state := by
  induction h generalizing s with
  | bind first _ rest =>
    obtain ⟨a, mid, ran, run⟩ := bind_eq_ok.mp run
    obtain ⟨awake, state⟩ := rest a run
    exact ⟨awake, state.trans (first.state_eq ran)⟩
  | goOn =>
    cases run
    exact ⟨nofun, rfl⟩
  | quit =>
    cases run
    exact ⟨nofun, rfl⟩
  | failDivision => cases run
  | jumpBy | returnValue | callPacked =>
    obtain ⟨⟨⟩, mid, ran, run⟩ := bind_eq_ok.mp run
    obtain ⟨m, -, rfl⟩ := onMachine_eq_ok.mp ran
    cases run
    exact ⟨nofun, rfl⟩

theorem quiet_of_executeRandom (run : executeRandom inst values s = .ok outcome t) :
    outcome ≠ .waiting ∧ t.state = s.state := by
  obtain ⟨range, s₁, given, rolling⟩ := bind_eq_ok.mp run
  obtain ⟨value, s₂, rolled, last⟩ := bind_eq_ok.mp rolling
  obtain ⟨-, rfl⟩ := operand_eq_ok.mp given
  obtain ⟨awake, state⟩ := (Ending.finish (K := H) value).quiet last
  cases rolled
  exact ⟨awake, state⟩

theorem quiet_of_executeSave (run : executeSave inst s = .ok outcome t) :
    outcome ≠ .waiting ∧ t.state = s.state := by
  rw [executeSave, get_bind] at run
  obtain ⟨bytes, s₁, asked, saving⟩ := bind_eq_ok.mp run
  obtain ⟨-, rfl⟩ := ask_eq_ok.mp asked
  obtain ⟨saved, s₂, kept, last⟩ := bind_eq_ok.mp saving
  obtain ⟨-, rfl⟩ := onHost_eq_ok.mp kept
  obtain ⟨awake, state⟩ := (Ending.branchIf (K := H) saved).quiet last
  exact ⟨awake, state⟩

/-- Only an instruction that reads a line can wait or change the run state. -/
theorem quiet_of_executeWith (notRead : inst.opcode ≠ .sread) (notRestore : inst.opcode ≠ .restore)
    (notRestart : inst.opcode ≠ .restart) (run : executeWith inst values s = .ok outcome t) :
    outcome ≠ .waiting ∧ t.state = s.state := by
  cases out : outward inst.opcode with
  | false => exact (Ending.executeWith (K := H) out).quiet run
  | true =>
    rw [executeWith] at run
    rcases eq_of_outward out with op | op | whole
    · exact absurd op notRead
    · rw [op] at run
      exact quiet_of_executeRandom run
    · rcases eq_of_wholesale whole with op | op | op
      · rw [op] at run
        exact quiet_of_executeSave run
      · exact absurd op notRestore
      · exact absurd op notRestart

/-- Reading a line waits for it if the host has none, and else goes on. -/
theorem outcome_of_executeRead (run : executeRead inst values s = .ok outcome t) :
    (outcome = .continued ∧ ¬ Unanswered values s ∧ t.state = s.state) ∨
      (outcome = .waiting ∧ Unanswered values s ∧
        ∃ text, values[0]? = some text ∧ t.state = .waiting text (values.getD 1 0)) := by
  obtain ⟨text, s₁, given, showing⟩ := bind_eq_ok.mp run
  obtain ⟨first, rfl⟩ := operand_eq_ok.mp given
  obtain ⟨⟨⟩, s₂, shown, asking⟩ := bind_eq_ok.mp showing
  obtain ⟨name, status, line, rfl⟩ := showStatus_eq_ok.mp shown
  obtain ⟨capacity, s₃, asked, reading⟩ := bind_eq_ok.mp asking
  obtain ⟨found, rfl⟩ := ask_eq_ok.mp asked
  obtain rfl := Except.ok.inj found
  obtain ⟨answer, s₄, read, last⟩ := bind_eq_ok.mp reading
  obtain ⟨answer_eq, rfl⟩ := onHost_eq_ok.mp read
  have unanswered_iff : Unanswered values s₁ ↔ answer = none := by
    constructor
    · rintro ⟨text', name', status', first', line', none⟩
      obtain rfl := Option.some.inj (first.symm.trans first')
      obtain ⟨rfl, rfl⟩ := Prod.mk.inj (Except.ok.inj (line.symm.trans line'))
      exact answer_eq.trans none
    · rintro rfl
      exact ⟨text, name, status, first, line, answer_eq.symm⟩
  cases answer with
  | some line =>
    obtain ⟨tokens, s₅, stored, done⟩ := bind_eq_ok.mp last
    obtain ⟨m, -, rfl⟩ := onMachine_eq_ok.mp stored
    cases done
    refine Or.inl ⟨rfl, fun unanswered => ?_, rfl⟩
    cases unanswered_iff.mp unanswered
  | none =>
    cases last
    exact Or.inr ⟨rfl, unanswered_iff.mpr rfl, text, first, rfl⟩

end RunState

/-! ### Steps -/

section Step

variable [Host H]

/-- What a step does is what its instruction does, but that it enters into the run state that the
story has quit. -/
theorem executed_of_step (fetched : fetch s = .ok inst t) (run : step s = .ok outcome u) :
    ∃ values mid v, resolveAll inst.operands t = .ok values mid ∧
      executeWith inst values mid = .ok outcome v ∧
      u = if outcome = .quit then { v with state := .quit } else v := by
  rw [step, bind_of_ok fetched] at run
  obtain ⟨outcome', v, executed, last⟩ := bind_eq_ok.mp run
  obtain ⟨values, mid, resolved, ran⟩ := bind_eq_ok.mp executed
  refine ⟨values, mid, v, resolved, ?_⟩
  split at last
  · next quits =>
    cases last
    exact ⟨ran, (if_pos quits).symm⟩
  · next goesOn =>
    cases last
    exact ⟨ran, (if_neg goesOn).symm⟩

/-- The operand of `jump` says where it goes. -/
theorem jumps_of_executeWith (jumps : inst.opcode = .jump)
    (run : executeWith inst values s = .ok outcome t) :
    ∃ operand, values[0]? = some operand ∧
      t.machine.pc = ((s.machine.pc + Word.signed operand - 2) % Machine.addressLimit).toNat := by
  rw [executeWith, jumps] at run
  obtain ⟨operand, mid, given, jumping⟩ := bind_eq_ok.mp run
  obtain ⟨first, rfl⟩ := operand_eq_ok.mp given
  cases jumping
  exact ⟨operand, first, rfl⟩

/-- The operands of `call` say which routine is entered, and with which arguments. -/
theorem called_of_executeWith (calls : inst.opcode = .call)
    (run : executeWith inst values s = .ok .called t) :
    ∃ packed arguments, values = packed :: arguments ∧
      t.machine = s.machine.entered (packed.toNat * 2) arguments inst.store := by
  rw [executeWith, calls] at run
  obtain ⟨packed, mid, given, calling⟩ := bind_eq_ok.mp run
  obtain ⟨first, rfl⟩ := operand_eq_ok.mp given
  obtain ⟨arguments, rfl⟩ : ∃ arguments, values = packed :: arguments := by
    cases values with
    | nil => cases first
    | cons head tail => exact ⟨tail, by rw [Option.some.inj first]⟩
  refine ⟨packed, arguments, rfl, ?_⟩
  rw [furtherOperands_cons] at calling
  split at calling
  · obtain ⟨⟨⟩, last, -, done⟩ := bind_eq_ok.mp calling
    cases done
  · obtain ⟨_, _, ⟨rfl, rfl⟩, calling⟩ := bind_eq_ok.mp calling
    obtain ⟨⟨⟩, last, entered, done⟩ := bind_eq_ok.mp calling
    obtain ⟨m, ran, rfl⟩ := onMachine_eq_ok.mp entered
    cases done
    exact Machine.eq_of_callPacked ran

/-- Where an instruction has jumped to. -/
theorem jumpsBy_of_executeWith {mid : Interpreter H} {m : Machine} {offset : Int}
    (resolved : (s.fetched inst).machine.SameRoutine mid.machine)
    (ran : executeWith inst values mid = .ok .branched v)
    (same : (s.fetched inst).machine.SameRoutine m)
    (jumped : Machine.jump offset m = .ok () v.machine) (steers : Steers inst offset) :
    ∃ offset, JumpsBy inst values offset ∧
      Stands ((↑(s.machine.pc + inst.size) + offset - 2) % Machine.addressLimit).toNat s v := by
  have machine : v.machine =
      { m with pc := ((m.pc + offset - 2) % Machine.addressLimit).toNat } :=
    (EStateM.Result.ok.inj jumped).2.symm
  have callers : v.machine.frames.callers = s.machine.frames.callers := by
    rw [machine]
    exact same.callers_eq
  by_cases jumps : inst.opcode = .jump
  · obtain ⟨operand, first, pc⟩ := jumps_of_executeWith jumps ran
    rw [resolved.pc_eq] at pc
    refine ⟨Word.signed operand, ?_, pc, callers⟩
    rw [JumpsBy, if_pos jumps]
    exact ⟨operand, first, rfl⟩
  · rcases steers with ⟨branch, found, rfl⟩ | jump
    · refine ⟨branch.offset, ?_, ?_, callers⟩
      · rw [JumpsBy, if_neg jumps]
        exact ⟨branch, found, rfl⟩
      · rw [machine, same.pc_eq]
        rfl
    · exact absurd jump jumps

theorem moves_of_executeWith {mid : Interpreter H}
    (resolved : resolveAll inst.operands (s.fetched inst) = .ok values mid)
    (notRestore : inst.opcode ≠ .restore) (notRestart : inst.opcode ≠ .restart)
    (ran : executeWith inst values mid = .ok outcome v) : Moves inst values s mid v outcome := by
  have concluded : Concludes inst (s.fetched inst).machine outcome v.machine :=
    concludes_of_execute notRestore notRestart (bind_eq_ok.mpr ⟨values, mid, resolved, ran⟩)
  have still : (s.fetched inst).machine.SameRoutine mid.machine :=
    (Works.resolveAll (K := H) inst.operands).sameRoutine resolved
  cases concluded with
  | goesOn same | waits same | quits same => exact ⟨same.pc_eq, same.callers_eq⟩
  | jumps same offset run steers => exact jumpsBy_of_executeWith still ran same run steers
  | calls _ isCall =>
    obtain ⟨packed, arguments, eq, machine⟩ := called_of_executeWith isCall ran
    have memory : mid.machine.memory = s.machine.memory :=
      (memory_of_resolveAll resolved).trans rfl
    have defaults (routine count : Nat) :
        mid.machine.localDefaults routine count = s.machine.localDefaults routine count := by
      rw [Machine.localDefaults, memory]
      rfl
    refine ⟨packed, arguments, eq, ?_, ?_⟩
    · rw [machine, Machine.entered, Machine.overrideLocals_eq, Machine.length_localDefaults,
        still.pc_eq, still.callers_eq, memory, defaults]
      rfl
    · rw [machine, Machine.entered, memory]
  | returns same value run =>
    obtain ⟨caller, callers, callers_eq, same', received⟩ := Machine.of_giveBack run
    refine ⟨caller, ?_, same'.pc_eq.trans same.returnPc_eq, ?_⟩
    · rw [same'.callers_eq]
      exact same.callers_eq.symm.trans callers_eq
    · split
      · next number store => exact received number (same.store_eq.trans store)
      · next store =>
        have unstored := same.store_eq.trans store
        rw [Machine.giveBack_eq callers_eq, unstored] at run
        exact (congrArg (·.frames.innermost) (EStateM.Result.ok.inj run).2).symm

/-- The run state after an instruction, and whether it waits. -/
theorem leaves_of_executeWith {mid : Interpreter H}
    (resolved : resolveAll inst.operands (s.fetched inst) = .ok values mid)
    (notRestore : inst.opcode ≠ .restore) (notRestart : inst.opcode ≠ .restart)
    (ran : executeWith inst values mid = .ok outcome v) :
    Leaves values s (if outcome = .quit then { v with state := .quit } else v) outcome ∧
      (outcome = .waiting ↔ inst.opcode = .sread ∧ Unanswered values mid) := by
  have unchanged : mid.state = (s.fetched inst).state :=
    (Works.resolveAll (K := H) inst.operands).state_eq resolved
  by_cases reads : inst.opcode = .sread
  · rw [executeWith, reads] at ran
    rcases outcome_of_executeRead ran with ⟨rfl, answered, state⟩ | ⟨rfl, unanswered, waits⟩
    · refine ⟨state.trans unchanged, fun waits => ?_, fun both => absurd both.2 answered⟩
      cases waits
    · exact ⟨waits, fun _ => ⟨reads, unanswered⟩, fun _ => rfl⟩
  · obtain ⟨awake, state⟩ := quiet_of_executeWith reads notRestore notRestart ran
    refine ⟨?_, fun waits => absurd waits awake, fun both => absurd both.1 reads⟩
    cases outcome with
    | quit => rfl
    | waiting => exact absurd rfl awake
    | _ => exact state.trans unchanged

/-- What a step of any instruction but `restore` and `restart` has done is told by its outcome: if
it has continued, the story stands behind the instruction with the same frames; if it has branched,
at the distance of the offset from there, in 32 bits; if it has called, in a routine with a frame of
its own, whose locals are their defaults and the arguments; if it has returned, at the place and
with the variable that the frame of the routine has kept. It waits exactly if it is to read a line
and the host has none. The run state changes only when it waits or quits. -/
theorem told_of_step (fetched : fetch s = .ok inst t) (notRestore : inst.opcode ≠ .restore)
    (notRestart : inst.opcode ≠ .restart) (run : step s = .ok outcome u) :
    ∃ values mid, resolveAll inst.operands t = .ok values mid ∧
      Tells inst values s mid u outcome := by
  obtain ⟨values, mid, v, resolved, ran, rfl⟩ := executed_of_step fetched run
  obtain ⟨-, -, -, rfl⟩ := fetch_eq_ok.mp fetched
  have moves := moves_of_executeWith resolved notRestore notRestart ran
  obtain ⟨leaves, waits_iff⟩ := leaves_of_executeWith resolved notRestore notRestart ran
  refine ⟨values, mid, resolved, ?_, leaves, waits_iff⟩
  by_cases quits : outcome = .quit
  · subst quits
    exact ⟨moves.pc_eq, moves.callers_eq⟩
  · rw [if_neg quits]
    exact moves

end Step

theorem callingStart_told :
    let called := after step callingStart
    fetch callingStart = .ok callingRoutine (callingStart.fetched callingRoutine) ∧
      step callingStart = .ok .called called ∧
      ∃ values mid, resolveAll callingRoutine.operands (callingStart.fetched callingRoutine) =
          .ok values mid ∧
        Tells callingRoutine values callingStart mid called .called := by
  intro called
  have fetched : fetch callingStart = .ok callingRoutine (callingStart.fetched callingRoutine) :=
    fetch_eq_ok.mpr ⟨by decide +kernel, by decide +kernel, by decide +kernel, rfl⟩
  have calls : step callingStart = .ok .called called := eq_ok_of_result (by decide +kernel)
  exact ⟨fetched, calls, told_of_step fetched nofun nofun calls⟩

end ZMachine.Interpreter
