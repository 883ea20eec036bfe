import ZMachine.Proofs.Interpreter.Blind
import ZMachine.Proofs.Interpreter.Reachable

/-!
# What a routine cannot see

As long as the running routine is not left, and nothing saves, restores or restarts, the story goes
on in the same way whatever the frames of its callers hold: with any others in their place each step
has the same result and tells the host the same, and these frames stay as they are, below the same
ones (`unseen_of_confined`). One step keeps two interpreters the same but for the frames below some
that they share (`peers_step`), and so does a whole run, by induction on its length.

The unpredictable seeds that `random` asks for come from outside the interpreter. They have to be the
same, and then it does not matter which others could have come; with other seeds a routine may go
another way, although the interpreters were the same (`results_ne_of_supply`).
-/

namespace ZMachine.Interpreter

variable {H : Type} {below others : List Frame} {other : Nat → UInt32} {n bound : Nat}
  {s t : Interpreter H}

/-- The interpreter with other callers of the running routine. -/
def withCallers (s : Interpreter H) (callers : List Frame) : Interpreter H :=
  { s with machine := s.machine.withCallers callers }

/-- The interpreter with other unpredictable seeds to come from outside. -/
def withSupply (s : Interpreter H) (other : Nat → UInt32) : Interpreter H :=
  { s with random := s.random.supplied other }

@[simp]
theorem seed_withSupply (s : Interpreter H) (other : Nat → UInt32) :
    (s.withSupply other).random.seed = s.random.seed := rfl

@[simp]
theorem mode_withSupply (s : Interpreter H) (other : Nat → UInt32) :
    (s.withSupply other).random.mode = s.random.mode := rfl

/-- The next instruction, if there is one, does not save, restore or restart. -/
def Calm (s : Interpreter H) : Prop :=
  ∀ inst t, fetch s = .ok inst t → wholesale inst.opcode = false

theorem calm_of_fetch {inst : Instruction} (fetched : fetch s = .ok inst t)
    (inward : wholesale inst.opcode = false) : Calm s := by
  intro inst' t' fetched'
  cases fetched.symm.trans fetched'
  exact inward

instance decidableCalm (s : Interpreter H) : Decidable (Calm s) :=
  match fetched : fetch s with
  | .ok inst _ =>
    decidable_of_iff (wholesale inst.opcode = false)
      ⟨calm_of_fetch fetched, fun calm => calm _ _ fetched⟩
  | .error _ _ => .isTrue fun _ _ run => nomatch fetched.symm.trans run

variable [Host H]

/-- So many steps leave at least so many callers each, and none of them saves, restores or
restarts. A step that fails is followed by others from where it has failed. -/
def Confined (depth : Nat) : Nat → Interpreter H → Prop
  | 0, _ => True
  | n + 1, s =>
    Calm s ∧ depth ≤ (after step s).machine.frames.depth ∧ Confined depth n (after step s)

instance decidableConfined (depth : Nat) :
    (n : Nat) → (s : Interpreter H) → Decidable (Confined depth n s)
  | 0, _ => .isTrue trivial
  | n + 1, s =>
    have := decidableConfined depth n (after step s)
    inferInstanceAs (Decidable (Calm s ∧ _ ∧ _))

/-- What so many steps give one after the other. -/
def results : Nat → Interpreter H → List (Except MachineError Outcome)
  | 0, _ => []
  | n + 1, s => result step s :: results n (after step s)

/-- The state after so many steps. -/
def later : Nat → Interpreter H → Interpreter H
  | 0, s => s
  | n + 1, s => later n (after step s)

/-- As many unpredictable seeds have been asked for, or more. -/
theorem asked_le_step (s : Interpreter H) :
    s.random.entropy.asked ≤ (after step s).random.entropy.asked := by
  have detached :
      Detached fun t : Interpreter H => s.random.entropy.asked ≤ t.random.entropy.asked := {
    setMachine := fun _ h => h
    setHost := fun _ h => h
    roll := fun range h => Nat.le_trans h (Random.asked_le_roll _ range)
    setState := fun _ h => h
    setCurrentPc := fun _ h => h
    closeTables := id
    restartStreams := id
    selectStream := maintains_selectStream_of_streams (fun _ h => h) fun _ h => h }
  exact inv_after_of_kept (detached.step (fun _ h => h) s (Nat.le_refl _))

theorem asked_le_later (n : Nat) (s : Interpreter H) :
    s.random.entropy.asked ≤ (later n s).random.entropy.asked := by
  induction n generalizing s with
  | zero => exact Nat.le_refl _
  | succ n ih => exact Nat.le_trans (asked_le_step s) (ih _)

theorem peers_fetch (number : below.length = others.length) :
    Alike (Across (Machine.Peers below others) other bound) (fetch : Play H Instruction) fetch := by
  have congruence : Congruence (Across (Machine.Peers below others) other bound :
      Interpreter H → Interpreter H → Prop) := congruence_peers number
  rintro s _ ⟨m, ⟨above, callers, rfl⟩, agrees, rfl⟩
  rw [fetch, get_bind, get_bind]
  refine ((congruence.ask fun _ _ => rfl).bind fun inst => ?_) s _
    ⟨_, ⟨above, callers, rfl⟩, agrees, rfl⟩
  refine (congruence.ask fun _ _ => rfl).bind fun next => .ite (fun _ => .throw _) fun _ => ?_
  refine Alike.bind (.modify ?_) fun _ => .pure _
  rintro s _ ⟨m, ⟨above, callers, rfl⟩, agrees, rfl⟩
  exact ⟨_, ⟨above, callers, rfl⟩, agrees, rfl⟩

theorem peers_step (number : below.length = others.length) (calm : Calm s)
    (peers : Across (Machine.Peers below others) other bound s t)
    (within : EndsWithin below.length bound (step s)) :
    Matched (Across (Machine.Peers below others) other bound)
      (Across (Machine.Peers below others) other bound) (step s) (step t) := by
  rw [step]
  refine (peers_fetch number s t peers).bind fun inst s' t' fetched peers' => ?_
  have executing : EndsWithin below.length bound (execute inst s') := by
    refine (within.rest fetched).first fun outcome u => ?_
    split
    · exact ⟨outcome, { u with state := .quit }, rfl, rfl, rfl⟩
    · exact ⟨outcome, u, rfl, rfl, rfl⟩
  refine (peers_execute number (calm inst s' fetched) peers' executing).bind
    fun outcome s'' t'' _ peers'' => ?_
  have quitting : Alike (Across (Machine.Peers below others) other bound)
      (modify fun s => { s with state := .quit } : Play H Unit)
      (modify fun s => { s with state := .quit }) :=
    across_modify (fun _ => rfl) (fun _ => rfl) fun _ _ _ => rfl
  split
  · exact (quitting.bind fun _ => .pure _) s'' t'' peers''
  · exact .ok peers''

/-- By induction on the number of steps: what they share and what they do not share stays. -/
theorem peers_of_confined (number : below.length = others.length)
    (peers : Across (Machine.Peers below others) other bound s t)
    (confined : Confined below.length n s) (within : (later n s).random.entropy.asked ≤ bound) :
    results n t = results n s ∧
      Across (Machine.Peers below others) other bound (later n s) (later n t) := by
  induction n generalizing s t with
  | zero => exact ⟨rfl, peers⟩
  | succ n ih =>
    obtain ⟨calm, deep, rest⟩ := confined
    have asked := Nat.le_trans (asked_le_later n (after step s)) within
    obtain ⟨same, peers'⟩ :=
      result_eq_of_matched (peers_step number calm peers (kept_of_after ⟨deep, asked⟩))
    obtain ⟨later_same, last⟩ := ih peers' rest within
    exact ⟨by rw [results, results, same, later_same], last⟩

/-- In so many steps that do not leave the running routine, save, restore or restart, the story does
the same with any other frames for its callers, as far as there are as many of them, and with any
other unpredictable seeds, as far as those that are asked for in these steps are the same: each step
gives the same, and in the end, as after each step, the interpreters are the same but for these
frames, which are still what they were, and for seeds that have not been asked for. This includes
their hosts, whatever these make of what they are told. -/
theorem unseen_of_confined (number : others.length = s.machine.frames.depth)
    (confined : Confined s.machine.frames.depth n s)
    (agrees : s.random.Agrees other (later n s).random.entropy.asked) :
    results n ((s.withCallers others).withSupply other) = results n s ∧ ∃ above,
      (later n s).machine.frames.callers = above ++ s.machine.frames.callers ∧
        later n ((s.withCallers others).withSupply other) =
          ((later n s).withCallers (above ++ others)).withSupply other := by
  have peers : Across (Machine.Peers s.machine.frames.callers others) other
      (later n s).random.entropy.asked s ((s.withCallers others).withSupply other) :=
    ⟨_, ⟨[], rfl, rfl⟩, agrees, rfl⟩
  obtain ⟨same, m, ⟨above, callers, rfl⟩, -, last⟩ :=
    peers_of_confined number.symm peers confined (Nat.le_refl _)
  exact ⟨same, above, callers, last⟩

/-- The image of a story that calls the routine at 0x50. This one asks for a new seed, calls the
routine at 0x68, which returns 1, and branches on a random number from 1 to 2. -/
def reseedingImage : Memory :=
  let header := Memory.putBytes (Array.replicate 112 0) 0x00
    [3, 0, 0, 0, 0, 0, 0x00, 0x40, 0x00, 0x6C, 0, 0, 0x00, 0x48, 0x00, 0x4C]
  let code := header.putBytes 0x40 [0xE0, 0x3F, 0x00, 0x28, 0x10]
  let routine := code.putBytes 0x51
    [0xE7, 0x7F, 0, 0, 0xE0, 0x3F, 0x00, 0x34, 0, 0xE7, 0x7F, 2, 0, 0x41, 0, 1, 0xC2, 0xB0]
  (routine.put 0x69 0xB0).put 0x6D 4

def reseedingStory : Story :=
  { image := reseedingImage, header := Header.ofMemory reseedingImage }

/-- The story in its first routine. All its unpredictable seeds will be 0. -/
def reseedingStart : Interpreter Scripted :=
  after Request.step.perform (loadedState reseedingStory {} { seed := some 1 } (.always 0)
    { separators := [], entryLength := 4, entryCount := 0, entries := 0x70 })

theorem reachable_reseedingStart : Reachable reseedingImage reseedingStart :=
  (reachable_of_read (by decide +kernel) (by decide +kernel) (by decide) (by decide +kernel)).after
    .step

/-- The caller of the routine and the seeds behind the first one make no difference. -/
theorem reseedingStart_unseen :
    let others : List Frame := [{ Frame.topLevel with locals := [7], stack := [8, 9] }]
    let other : Nat → UInt32 := fun i => if i = 0 then 0 else 3
    Reachable reseedingImage reseedingStart ∧
      results 5 reseedingStart =
        [.ok .continued, .ok .called, .ok (.returned 1), .ok .continued, .ok .branched] ∧
      results 5 ((reseedingStart.withCallers others).withSupply other) =
        results 5 reseedingStart ∧ ∃ above,
          (later 5 reseedingStart).machine.frames.callers =
            above ++ reseedingStart.machine.frames.callers ∧
          later 5 ((reseedingStart.withCallers others).withSupply other) =
            ((later 5 reseedingStart).withCallers (above ++ others)).withSupply other := by
  intro others other
  have number : others.length = reseedingStart.machine.frames.depth := by decide +kernel
  have confined : Confined reseedingStart.machine.frames.depth 5 reseedingStart := by
    decide +kernel
  have one : (later 5 reseedingStart).random.entropy.asked = 1 := by decide +kernel
  have agrees :
      reseedingStart.random.Agrees other (later 5 reseedingStart).random.entropy.asked := by
    intro i _ less
    rw [one] at less
    obtain rfl : i = 0 := by omega
    decide +kernel
  exact ⟨reachable_reseedingStart, by decide +kernel, unseen_of_confined number confined agrees⟩

/-- With another seed from outside, the branch is not taken, although nothing else is different. -/
theorem results_ne_of_supply :
    ∃ (s : Interpreter Scripted) (other : Nat → UInt32), Reachable reseedingImage s ∧
      Confined s.machine.frames.depth 5 s ∧
      (s.withSupply other).random.seed = s.random.seed ∧
      (s.withSupply other).random.mode = s.random.mode ∧
      results 5 (s.withSupply other) ≠ results 5 s :=
  ⟨reseedingStart, fun _ => 3, reachable_reseedingStart, by decide +kernel, seed_withSupply _ _,
    mode_withSupply _ _, by decide +kernel⟩

end ZMachine.Interpreter
