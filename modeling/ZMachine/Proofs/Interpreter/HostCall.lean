import ZMachine.Proofs.Interpreter.Isolation
import ZMachine.Proofs.Interpreter.Progress
import ZMachine.Proofs.Interpreter.Takeover

/-!
# Routines called by the host

The host may have a routine run from wherever the story is. Its end is known by the number of frames
alone: a step that returns and leaves as many as there were. As long as no step replaces all frames,
by restarting the story or taking over a saved game, the frames below the routine stand as they
were, so that this step is the return of the routine itself and leads back to the very place of the
call; or else the story has quit, and the routine is left where it was (`settled_of_callRoutine`).

After frames have been replaced, a routine of the restarted story may be taken for the one that was
called (`restartingStart_called`).
-/

namespace ZMachine.Interpreter

variable {H : Type} {s t : Interpreter H} {outcome : Outcome} {value : UInt16} {pc depth fuel : Nat}
  {below : List Frame} {es : List (Interpreter H × Outcome)}

/-- Successful steps one after the other, each with the state before it and its outcome. -/
inductive Steps [Host H] : Interpreter H → List (Interpreter H × Outcome) → Interpreter H → Prop
  | none (s : Interpreter H) : Steps s [] s
  | cons {s t u : Interpreter H} {outcome : Outcome} {es : List (Interpreter H × Outcome)}
      (run : step s = .ok outcome t) (later : Steps t es u) : Steps s ((s, outcome) :: es) u

/-- The last step was the return of the routine that stands on the frames `below`, and it has led
back to these frames and to the place where the routine was called. -/
structure GaveBack (pc : Nat) (below : List Frame) (es : List (Interpreter H × Outcome))
    (value : UInt16) (t : Interpreter H) : Prop where
  within : ∀ e ∈ es, UnderWay pc none below e.1.machine.frames
  last : ∃ earlier before, es = earlier ++ [(before, .returned value)] ∧
    before.machine.frames.callers = below
  frames_eq : t.machine.frames.innermost :: t.machine.frames.callers = below
  pc_eq : t.machine.pc = pc

/-- The last step has quit the story, and the routine has not returned. -/
structure BrokeOff (pc : Nat) (below : List Frame) (es : List (Interpreter H × Outcome))
    (value : UInt16) (t : Interpreter H) : Prop where
  within : ∀ e ∈ es, UnderWay pc none below e.1.machine.frames
  last : ∃ earlier before, es = earlier ++ [(before, .quit)]
  state_eq : t.state = .quit
  value_eq : value = 0
  under : UnderWay pc none below t.machine.frames

theorem GaveBack.cons (h : GaveBack pc below es value t)
    (under : UnderWay pc none below s.machine.frames) :
    GaveBack pc below ((s, outcome) :: es) value t where
  within := List.forall_mem_cons.mpr ⟨under, h.within⟩
  last := by
    obtain ⟨earlier, before, eq, callers⟩ := h.last
    exact ⟨(s, outcome) :: earlier, before, by rw [eq]; rfl, callers⟩
  frames_eq := h.frames_eq
  pc_eq := h.pc_eq

theorem BrokeOff.cons (h : BrokeOff pc below es value t)
    (under : UnderWay pc none below s.machine.frames) :
    BrokeOff pc below ((s, outcome) :: es) value t where
  within := List.forall_mem_cons.mpr ⟨under, h.within⟩
  last := by
    obtain ⟨earlier, before, eq⟩ := h.last
    exact ⟨(s, outcome) :: earlier, before, by rw [eq]; rfl⟩
  state_eq := h.state_eq
  value_eq := h.value_eq
  under := h.under

/-- A return that leaves only the frames below the routine is that of the routine itself. -/
theorem UnderWay.of_returned {inst : Instruction} {m m' : Machine}
    (h : UnderWay pc none below m.frames) (concluded : Concludes inst m (.returned value) m')
    (back : m'.frames.depth + 1 = below.length) :
    m.frames.callers = below ∧ m'.frames.innermost :: m'.frames.callers = below ∧ m'.pc = pc := by
  cases concluded with
  | @returns mid _ same _ run =>
    obtain ⟨above, frame, eq, returnPc, store⟩ := h.sameRoutine same
    obtain ⟨caller, callers, callers_eq, same', -⟩ := Machine.of_giveBack run
    cases above with
    | nil =>
      obtain ⟨rfl, rest⟩ := List.cons.inj eq
      rw [Machine.giveBack_eq callers_eq, store] at run
      cases run
      exact ⟨same.callers_eq.symm.trans rest, callers_eq.symm.trans rest, returnPc⟩
    | cons first above =>
      have rest : mid.frames.callers = above ++ frame :: below := (List.cons.inj eq).2
      have longer := congrArg List.length (callers_eq.symm.trans rest)
      rw [CallStack.depth, same'.callers_eq, Machine.left] at back
      simp only [List.length_cons, List.length_append] at longer back
      omega

variable [Host H]

/-- One step of the routine, which does not replace the frames: either the routine is still under
way, or the step was its return and the depth is that of its caller. -/
theorem UnderWay.step (h : UnderWay pc none below s.machine.frames)
    (deep : below.length = depth + 1) (keeps : ¬ Replaces s) (run : step s = .ok outcome t)
    (away : ∀ value, outcome = .returned value → t.machine.frames.depth ≠ depth) :
    UnderWay pc none below t.machine.frames := by
  obtain ⟨inst, concluded⟩ := concludes_of_not_replaces keeps run
  have before : UnderWay pc none below (s.fetched inst).machine.frames := h
  rcases before.concludes concluded with still | ⟨value, returned, gone⟩
  · exact still
  · obtain ⟨caller, eq, -⟩ := gone.frames
    rw [eq, List.length_cons] at deep
    exact absurd (Nat.succ.inj deep) (away value returned)

/-- By induction on the fuel: until the routine returns, or the story quits, every step leaves it
under way. -/
theorem ended_of_runRoutine (deep : below.length = depth + 1)
    (run : runRoutine depth fuel s = .ok (some value) t) :
    ∃ es, Steps s es t ∧
      (UnderWay pc none below s.machine.frames → (∀ e ∈ es, ¬ Replaces e.1) →
        GaveBack pc below es value t ∨ BrokeOff pc below es value t) := by
  induction fuel generalizing s with
  | zero => cases run
  | succ fuel ih =>
    obtain ⟨outcome, mid, stepped, later⟩ := bind_eq_ok.mp run
    have goOn (away : ∀ value, outcome = .returned value → mid.machine.frames.depth ≠ depth)
        (rest : runRoutine depth fuel mid = .ok (some value) t) :
        ∃ es, Steps s es t ∧
          (UnderWay pc none below s.machine.frames → (∀ e ∈ es, ¬ Replaces e.1) →
            GaveBack pc below es value t ∨ BrokeOff pc below es value t) := by
      obtain ⟨es, steps, ended⟩ := ih rest
      refine ⟨(s, outcome) :: es, .cons stepped steps, fun under keeps => ?_⟩
      obtain ⟨first, others⟩ := List.forall_mem_cons.mp keeps
      have still := under.step deep first stepped away
      exact (ended still others).imp (·.cons under) (·.cons under)
    cases outcome with
    | returned given =>
      simp only [get_bind] at later
      split at later
      · next back =>
        cases later
        refine ⟨[(s, .returned value)], .cons stepped (.none _), fun under keeps => Or.inl ?_⟩
        obtain ⟨inst, concluded⟩ :=
          concludes_of_not_replaces (keeps (s, .returned value) List.mem_cons_self) stepped
        have before : UnderWay pc none below (s.fetched inst).machine.frames := under
        obtain ⟨callers, frames, pc_eq⟩ :=
          before.of_returned concluded (by rw [back, deep])
        exact ⟨List.forall_mem_singleton.mpr under, ⟨[], s, rfl, callers⟩, frames, pc_eq⟩
      · next away => exact goOn (fun _ _ => away) later
    | quit =>
      cases later
      refine ⟨[(s, .quit)], .cons stepped (.none _), fun under keeps => Or.inr ?_⟩
      have still := under.step deep (keeps (s, .quit) List.mem_cons_self) stepped nofun
      exact ⟨List.forall_mem_singleton.mpr under, ⟨[], s, rfl⟩, state_of_step_quit stepped, rfl,
        still⟩
    | waiting => cases later
    | continued | branched | called => exact goOn nofun later

/-- The fuel does not give out: before that there are too many instructions to count. -/
theorem lt_countLimit_of_none (run : runRoutine depth fuel s = .ok none t) :
    s.count + fuel < countLimit ∨ fuel = 0 := by
  induction fuel generalizing s with
  | zero => exact Or.inr rfl
  | succ fuel ih =>
    obtain ⟨outcome, mid, stepped, later⟩ := bind_eq_ok.mp run
    obtain ⟨room, count, -⟩ := counted_of_step stepped
    have goOn (rest : runRoutine depth fuel mid = .ok none t) :
        s.count + (fuel + 1) < countLimit ∨ fuel + 1 = 0 := by
      rcases ih rest with less | rfl
      · exact Or.inl (by omega)
      · exact Or.inl room
    cases outcome with
    | returned value =>
      simp only [get_bind] at later
      split at later
      · cases later
      · exact goOn later
    | quit => cases later
    | waiting => cases later
    | continued | branched | called => exact goOn later

/-- What a routine that the host has called has given, and how: unless the frames have been replaced
on the way, the routine itself has returned, to the frames and the place of the call, or the story
has quit before that. -/
theorem settled_of_callRoutine {packed : UInt16} {arguments : List UInt16}
    {result : Option UInt16} (run : callRoutine packed arguments s = .ok result t) :
    ∃ value, result = some value ∧
      (packed = 0 → value = 0 ∧ t = s) ∧
      (packed ≠ 0 → ∃ s₀ es,
        onMachine (Machine.callPacked packed arguments none) s = .ok () s₀ ∧ Steps s₀ es t ∧
          ((∀ e ∈ es, ¬ Replaces e.1) →
            GaveBack s.machine.pc (s.machine.frames.innermost :: s.machine.frames.callers)
                es value t ∨
              BrokeOff s.machine.pc (s.machine.frames.innermost :: s.machine.frames.callers)
                es value t)) := by
  rw [callRoutine] at run
  by_cases zero : packed = 0
  · rw [if_pos zero] at run
    cases run
    exact ⟨0, rfl, fun _ => ⟨rfl, rfl⟩, fun ne => absurd zero ne⟩
  · rw [if_neg zero, get_bind] at run
    obtain ⟨⟨⟩, s₀, called, rest⟩ := bind_eq_ok.mp run
    cases result with
    | none =>
      rcases lt_countLimit_of_none rest with less | nothing
      · omega
      · cases nothing
    | some value =>
      obtain ⟨es, steps, ended⟩ := ended_of_runRoutine (List.length_cons ..) rest
      refine ⟨value, rfl, fun eq => absurd eq zero, fun _ => ⟨s₀, es, called, steps, ended ?_⟩⟩
      obtain ⟨m, done, rfl⟩ := onMachine_eq_ok.mp called
      obtain rfl := Machine.eq_of_callPacked done
      exact ⟨[], _, rfl, rfl, rfl⟩

theorem Steps.count_eq (h : Steps s es t) : t.count = s.count + es.length := by
  induction h with
  | none => rfl
  | cons run _ ih =>
    rw [ih, (counted_of_step run).2.1, List.length_cons]
    omega

/-- The routine that a story calls returns 1 to the host, too, in a single step. -/
theorem callingStart_settled :
    ∃ s₀, onMachine (Machine.callPacked 0x28 [] none) callingStart = .ok () s₀ ∧
      GaveBack callingStart.machine.pc
        (callingStart.machine.frames.innermost :: callingStart.machine.frames.callers)
        [(s₀, .returned 1)] 1 (after (callRoutine 0x28 []) callingStart) := by
  have run : callRoutine 0x28 [] callingStart =
      .ok (some 1) (after (callRoutine 0x28 []) callingStart) := eq_ok_of_result (by decide +kernel)
  obtain ⟨value, eq, -, rest⟩ := settled_of_callRoutine run
  obtain rfl := Option.some.inj eq
  obtain ⟨s₀, es, called, steps, ended⟩ := rest (by decide)
  have entered : s₀ = after (onMachine (Machine.callPacked 0x28 [] none)) callingStart := by
    rw [after, called]
  have fetched : fetch s₀ = .ok returningTrue (s₀.fetched returningTrue) := by
    rw [entered]
    exact fetch_eq_ok.mpr ⟨by decide +kernel, by decide +kernel, by decide +kernel, rfl⟩
  have single : es.length = 1 := by
    have count := steps.count_eq
    have before : s₀.count = 0 := by
      rw [entered]
      decide +kernel
    have behind : (after (callRoutine 0x28 []) callingStart).count = 1 := by decide +kernel
    omega
  obtain ⟨⟨before, outcome⟩, rfl⟩ := List.length_eq_one_iff.mp single
  obtain rfl : before = s₀ := by
    cases steps
    rfl
  have keeps : ¬ Replaces before := by
    rintro (⟨inst, t, again, restarts⟩ | ⟨game, inst, t, bytes, again, restores, -⟩)
    · cases fetched.symm.trans again
      cases restarts
    · cases fetched.symm.trans again
      cases restores
  refine ⟨before, called, ?_⟩
  rcases ended (by simpa using keeps) with gaveBack | brokeOff
  · obtain ⟨earlier, last, eq, -⟩ := gaveBack.last
    cases earlier with
    | nil =>
      cases eq
      exact gaveBack
    | cons e earlier => simp at eq
  · exact absurd brokeOff.state_eq (by decide +kernel)

/-- The image of a story that calls a routine which returns 1, with another routine, which restarts
the story, behind it. -/
def restartingImage : Memory :=
  callingImage.putBytes 0x52 [0x00, 0xB7]

def restartingStory : Story :=
  { image := restartingImage, header := Header.ofMemory restartingImage }

def restartingStart : Interpreter Scripted :=
  loadedState restartingStory {} {} (.always 0)
    { separators := [], entryLength := 4, entryCount := 0, entries := 0x58 }

/-- The value of the routine that the story calls after the restart is taken for that of the one
that the host has called, and the story is behind that call then. -/
theorem restartingStart_called :
    Reachable restartingImage restartingStart ∧ ∃ t,
      callRoutine 0x29 [] restartingStart = .ok (some 1) t ∧
        t.machine.pc ≠ restartingStart.machine.pc := by
  have reachable : Reachable restartingImage restartingStart :=
    reachable_of_read (by decide +kernel) (by decide +kernel) (by decide) (by decide +kernel)
  exact ⟨reachable, _, eq_ok_of_result (by decide +kernel), by decide +kernel⟩

end ZMachine.Interpreter
