import ZMachine.Proofs.Interpreter.Alike
import ZMachine.Proofs.Interpreter.Running

/-!
# Instructions and the callers

No instruction of a routine looks at the frames of its callers: what works in the running frame does
the same on top of any others (`InFrame.blind`), a call only counts them, and a return uncovers the
first of them. So two machines that differ in the frames below some that they share (`Peers`) do the
same with an instruction and differ there alone afterwards, unless it returns to these frames
(`peers_execute`). The unpredictable seeds may come from different places, too, as long as those that
the instruction asks for are the same.
-/

namespace ZMachine

namespace Random

variable {r : Random} {other : Nat → UInt32} {bound : Nat} {range : Int}

/-- The generator with other seeds to come from outside. -/
def supplied (r : Random) (other : Nat → UInt32) : Random :=
  { r with entropy := { r.entropy with supply := other } }

/-- The seeds that are still to come before `bound` have been asked for are the same in `other`. -/
def Agrees (r : Random) (other : Nat → UInt32) (bound : Nat) : Prop :=
  ∀ i, r.entropy.asked ≤ i → i < bound → other i = r.entropy.supply i

theorem draw_supplied (r : Random) (other : Nat → UInt32) :
    (r.supplied other).draw = (r.draw.1, r.draw.2.supplied other) := by
  cases r
  rfl

theorem asked_le_roll (r : Random) (range : Int) :
    r.entropy.asked ≤ (r.roll range).2.entropy.asked := by
  rcases Int.lt_trichotomy range 0 with negative | rfl | positive
  · exact Nat.le_of_eq (by rw [roll_of_neg r negative, predictable])
  · rw [roll_zero, uniform, Entropy.next]
    exact Nat.le_succ _
  · exact Nat.le_of_eq (by rw [roll_of_pos r positive, entropy_draw])

/-- Only for the operand 0 a seed is asked for, and it comes before the bound. -/
theorem roll_supplied (agrees : r.Agrees other bound)
    (within : (r.roll range).2.entropy.asked ≤ bound) :
    (r.supplied other).roll range = ((r.roll range).1, (r.roll range).2.supplied other) ∧
      (r.roll range).2.Agrees other bound := by
  rcases Int.lt_trichotomy range 0 with negative | rfl | positive
  · rw [roll_of_neg r negative, roll_of_neg _ negative]
    exact ⟨rfl, agrees⟩
  · rw [roll_zero] at within ⊢
    have seed : other r.entropy.asked = r.entropy.supply r.entropy.asked :=
      agrees _ (Nat.le_refl _) within
    refine ⟨?_, fun i later => agrees i (Nat.le_of_succ_le later)⟩
    rw [roll_zero, uniform, uniform]
    simp only [supplied, Entropy.next, seed]
  · rw [roll_of_pos r positive, roll_of_pos _ positive, draw_supplied, Agrees, entropy_draw]
    exact ⟨rfl, agrees⟩

end Random

namespace Machine

variable {α : Type} {operation : MachineM α} {callers others below : List Frame}
  {m m' : Machine} {value : UInt16}

/-- The operation does the same whoever the callers of the running routine are. -/
def Blind (operation : MachineM α) : Prop :=
  ∀ others, Alike (fun m m' => m' = m.withCallers others) operation operation

theorem blind_poke (address : Nat) (value : UInt8) : Blind (poke address value) := by
  rintro others m _ rfl
  exact .ite Iff.rfl (fun _ => .ok rfl) fun _ => .error rfl

theorem InFrame.blind (h : InFrame operation) : Blind operation := by
  induction h with
  | pure a => exact fun _ => .pure a
  | bind _ _ first rest => exact fun others => (first others).bind fun a => rest a others
  | throw e => exact fun _ _ _ same => .error same
  | @query _ f oblivious =>
    rintro others m _ rfl
    rw [Machine.query, Machine.query, oblivious]
    cases f m with
    | ok a => exact .ok rfl
    | error e => exact .error rfl
  | looking oblivious _ rest =>
    rintro others m _ rfl
    rw [get_bind, get_bind, oblivious]
    exact rest m others m _ rfl
  | poke address value => exact blind_poke address value
  | writeByte address value =>
    rintro others m _ rfl
    refine .ite Iff.rfl (fun _ => .error rfl) fun _ => ?_
    refine .ite Iff.rfl (fun _ => .error rfl) fun _ => ?_
    exact blind_poke address value others m _ rfl
  | push value =>
    rintro others m _ rfl
    exact .ite Iff.rfl (fun _ => .error rfl) fun _ => .ok rfl
  | pop =>
    rintro others m _ rfl
    rw [Machine.pop, Machine.pop, stack_withCallers]
    cases m.stack with
    | nil => exact .error rfl
    | cons value rest => exact .ok rfl
  | replaceTop value =>
    rintro others m _ rfl
    rw [Machine.replaceTop, Machine.replaceTop, stack_withCallers]
    cases m.stack with
    | nil => exact .error rfl
    | cons _ rest => exact .ok rfl
  | writeLocal number value =>
    rintro others m _ rfl
    exact .ite Iff.rfl (fun _ => .error rfl) fun _ => .ok rfl

/-- The machines are the same but for the callers of the running routine, which are these. -/
def Beside (callers others : List Frame) (m m' : Machine) : Prop :=
  m.frames.callers = callers ∧ m' = m.withCallers others

/-- What works in the running frame leaves the callers of both machines alone. -/
theorem InFrame.beside (h : InFrame operation) :
    Alike (Beside callers others) operation operation := by
  rintro m m' ⟨rfl, eq⟩
  have stays := h.stays m m (.refl m)
  have matched := h.blind others m m' eq
  generalize left : operation m = r at matched
  generalize right : operation m' = q at matched
  cases matched with
  | ok same => exact .ok ⟨(stays.state_of_ok left).callers_eq, same⟩
  | error same => exact .error ⟨(stays.state_of_error left).callers_eq, same⟩

/-- The machines share the innermost frames, and what lies below differs. -/
def Peers (below others : List Frame) (m m' : Machine) : Prop :=
  ∃ above, Beside (above ++ below) (above ++ others) m m'

theorem InFrame.peers (h : InFrame operation) :
    Alike (Peers below others) operation operation := by
  rintro m m' ⟨above, beside⟩
  exact (h.beside m m' beside).mono (fun _ _ h => ⟨above, h⟩) fun _ _ h => ⟨above, h⟩

theorem peers_jump (offset : Int) : Alike (Peers below others) (jump offset) (jump offset) := by
  rintro m _ ⟨above, callers, rfl⟩
  exact .ok ⟨above, callers, rfl⟩

theorem depth_eq_of_peers (number : below.length = others.length) (h : Peers below others m m') :
    m'.frames.depth = m.frames.depth := by
  obtain ⟨above, callers, rfl⟩ := h
  rw [CallStack.depth, CallStack.depth, callers, List.length_append, number]
  exact List.length_append

/-- A call counts the frames, and puts the running one on top of them. -/
theorem peers_callPacked (number : below.length = others.length) (packed : UInt16)
    (arguments : List UInt16) (store : Option UInt8) :
    Alike (Peers below others) (callPacked packed arguments store)
      (callPacked packed arguments store) := by
  refine (InFrame.query fun _ _ => rfl).peers.bind fun routine m m' peers => ?_
  have depth := depth_eq_of_peers number peers
  obtain ⟨above, callers, rfl⟩ := peers
  have error {e : MachineError} : Matched (Peers below others) (Peers below others)
      (.error e m : EStateM.Result _ _ Unit) (.error e (m.withCallers (above ++ others))) :=
    .error ⟨above, callers, rfl⟩
  simp only [enter]
  refine .ite (by rw [depth]) (fun _ => error) fun _ => ?_
  refine .ite Iff.rfl (fun _ => error) fun _ => ?_
  refine .ite Iff.rfl (fun _ => error) fun _ => ?_
  exact .ok ⟨m.frames.innermost :: above, congrArg (m.frames.innermost :: ·) callers, rfl⟩

/-- A return leaves the callers behind the first one, also when the value cannot be stored. -/
theorem kept_giveBack (value : UInt16) {caller : Frame} {rest : List Frame}
    (callers : m.frames.callers = caller :: rest) :
    Kept (fun m' => m'.frames.callers = rest) (fun _ => True) (giveBack value m) := by
  rw [giveBack_eq callers]
  split
  · exact ((inFrame_writeVariable _ value).stays _ _ (.refl _)).imp fun _ same => same.callers_eq
  · exact rfl

/-- A return to a frame that the machines share. -/
theorem matched_giveBack {caller : Frame} {above : List Frame}
    (h : Beside (caller :: (above ++ below)) (caller :: (above ++ others)) m m') :
    Matched (Peers below others) (Peers below others) (giveBack value m) (giveBack value m') := by
  obtain ⟨callers, eq⟩ := h
  have other : m'.frames.callers = caller :: (above ++ others) := by
    rw [eq]
    rfl
  have beside : Beside (above ++ below) (above ++ others) (m.left caller (above ++ below))
      (m'.left caller (above ++ others)) := by
    rw [eq]
    exact ⟨rfl, rfl⟩
  have store : m'.frames.innermost.store = m.frames.innermost.store := by
    rw [eq]
    rfl
  rw [giveBack_eq callers, giveBack_eq other, store]
  cases m.frames.innermost.store with
  | some number => exact (inFrame_writeVariable number value).peers _ _ ⟨above, beside⟩
  | none => exact .ok ⟨above, beside⟩

/-- A return that does not leave the shared frames. -/
theorem peers_giveBack (number : below.length = others.length) (h : Peers below others m m')
    (within : Kept (fun m => below.length ≤ m.frames.depth) (fun _ => True) (giveBack value m)) :
    Matched (Peers below others) (Peers below others) (giveBack value m) (giveBack value m') := by
  obtain ⟨above, beside⟩ := h
  cases above with
  | cons caller above => exact matched_giveBack beside
  | nil =>
    obtain ⟨callers, eq⟩ := beside
    cases below with
    | nil =>
      -- There are no callers, so the machines are the same.
      obtain rfl : others = [] := List.eq_nil_of_length_eq_zero number.symm
      have top : m.frames.depth = 0 := congrArg List.length callers
      have top' : m'.frames.depth = 0 := by
        rw [eq]
        rfl
      rw [giveBack_topLevel value top, giveBack_topLevel value top', eq]
      exact .error ⟨[], callers, rfl⟩
    | cons caller rest =>
      have left := kept_giveBack value callers
      cases run : giveBack value m with
      | ok _ t =>
        have behind := left.state_of_ok run
        have deep := within.state_of_ok run
        rw [CallStack.depth, behind, List.length_cons] at deep
        omega
      | error e t =>
        have behind := left.state_of_error run
        have deep := within.state_of_error run
        rw [CallStack.depth, behind, List.length_cons] at deep
        omega

end Machine

namespace Interpreter

variable {H α β : Type} {R : Machine → Machine → Prop} {below others : List Frame}
  {other : Nat → UInt32} {depth bound : Nat} {s t : Interpreter H} {inst : Instruction}
  {values : List UInt16}

/-- The interpreters are the same but for their machines, which are related, and for where their
unpredictable seeds come from, of which so many will be the same. -/
def Across (R : Machine → Machine → Prop) (other : Nat → UInt32) (bound : Nat)
    (s t : Interpreter H) : Prop :=
  ∃ m, R s.machine m ∧ s.random.Agrees other bound ∧
    t = { s with machine := m, random := s.random.supplied other }

/-- The operation ends, whether or not it fails, with at least so many callers, and before more seeds
than the bound have been asked for. -/
def EndsWithin (depth bound : Nat) (r : EStateM.Result MachineError (Interpreter H) α) : Prop :=
  Kept (fun s => depth ≤ s.machine.frames.depth ∧ s.random.entropy.asked ≤ bound) (fun _ => True) r

theorem EndsWithin.rest {x : Play H α} {f : α → Play H β} {a : α}
    (h : EndsWithin depth bound ((x >>= f) s)) (run : x s = .ok a t) :
    EndsWithin depth bound (f a t) := by
  rw [bind_of_ok run] at h
  exact h

/-- What leaves the machine and the random numbers alone changes nothing about the callers and the
seeds. -/
theorem EndsWithin.first {x : Play H α} {f : α → Play H β}
    (h : EndsWithin depth bound ((x >>= f) s))
    (still : ∀ a t, ∃ b u, f a t = .ok b u ∧ u.machine = t.machine ∧ u.random = t.random) :
    EndsWithin depth bound (x s) := by
  cases run : x s with
  | ok a t =>
    obtain ⟨b, u, ended, machine, random⟩ := still a t
    have within := (h.rest run).state_of_ok ended
    rw [machine, random] at within
    exact within
  | error e t =>
    rw [bind_of_error run] at h
    exact h

theorem matched_onMachine {operation : MachineM α} {m : Machine}
    (agrees : s.random.Agrees other bound)
    (h : Matched R R (operation s.machine) (operation m)) :
    Matched (Across R other bound) (Across R other bound) (onMachine operation s)
      (onMachine operation { s with machine := m, random := s.random.supplied other }) := by
  generalize left : operation s.machine = r at h
  generalize right : operation m = q at h
  cases h with
  | ok h =>
    rw [onMachine_of_ok left, onMachine_of_ok right]
    exact .ok ⟨_, h, agrees, rfl⟩
  | error h =>
    rw [onMachine_of_error left, onMachine_of_error right]
    exact .error ⟨_, h, agrees, rfl⟩

theorem across_onMachine {operation : MachineM α} (h : Alike R operation operation) :
    Alike (Across R other bound) (onMachine operation : Play H α) (onMachine operation) := by
  rintro s _ ⟨m, related, agrees, rfl⟩
  exact matched_onMachine agrees (h _ _ related)

/-- A change that neither looks at the machine and the random numbers nor touches them. -/
theorem across_modify {f : Interpreter H → Interpreter H} (machine : ∀ s, (f s).machine = s.machine)
    (random : ∀ s, (f s).random = s.random)
    (apart : ∀ s m r, f { s with machine := m, random := r } =
      { f s with machine := m, random := r }) :
    Alike (Across R other bound) (modify f : Play H Unit) (modify f) := by
  refine .modify ?_
  rintro s _ ⟨m, related, agrees, rfl⟩
  refine ⟨m, (machine s).symm ▸ related, (random s).symm ▸ agrees, ?_⟩
  rw [apart, random]

/-- What instructions do that stay in the running routine. A call would be allowed, too, but a
return of the running routine does not stay. -/
theorem peers_change {operation : MachineM α} (number : below.length = others.length)
    (change : Change operation) (stays : Machine.Stays operation) :
    Alike (Machine.Peers below others) operation operation := by
  revert stays
  refine change.elim (P := fun operation =>
    Machine.Stays operation → Alike (Machine.Peers below others) operation operation) ?_ ?_ ?_ ?_
  · exact fun inFrame _ => inFrame.peers
  · exact fun packed arguments store _ => Machine.peers_callPacked number packed arguments store
  · intro value stays m m' peers
    refine Machine.peers_giveBack number peers ((stays m m (.refl m)).imp fun t same => ?_)
    obtain ⟨above, callers, -⟩ := peers
    rw [CallStack.depth, same.callers_eq, callers, List.length_append]
    exact Nat.le_add_left _ _
  · exact fun offset _ => Machine.peers_jump offset

variable [Host H]

theorem congruence_peers (number : below.length = others.length) :
    Congruence (Across (Machine.Peers below others) other bound :
      Interpreter H → Interpreter H → Prop) where
  refuse why := by
    rintro s _ ⟨m, peers, agrees, rfl⟩
    exact .error ⟨m, peers, agrees, rfl⟩
  selected := by
    rintro s _ ⟨m, peers, agrees, rfl⟩
    exact .ok ⟨m, peers, agrees, rfl⟩
  modifyStreams f := across_modify (fun _ => rfl) (fun _ => rfl) fun _ _ _ => rfl
  tell notice := across_modify (fun _ => rfl) (fun _ => rfl) fun _ _ _ => rfl
  inFrame inFrame := across_onMachine inFrame.peers
  change change stays := across_onMachine (peers_change number change stays)

theorem peers_ending (number : below.length = others.length) {x y : Play H Outcome}
    (h : Ending inst x y) (peers : Across (Machine.Peers below others) other bound s t)
    (within : EndsWithin below.length bound (x s)) :
    Matched (Across (Machine.Peers below others) other bound)
      (Across (Machine.Peers below others) other bound) (x s) (y t) := by
  induction h generalizing s t with
  | bind first _ rest =>
    refine ((congruence_peers number).works first s t peers).bind fun a s' t' run peers' => ?_
    exact rest a peers' (within.rest run)
  | goOn => exact .ok peers
  | quit => exact .ok peers
  | failDivision =>
    obtain ⟨m, peers, agrees, rfl⟩ := peers
    exact .error ⟨m, peers, agrees, rfl⟩
  | jumpBy offset =>
    exact ((across_onMachine (Machine.peers_jump offset)).bind fun _ => .pure _) s t peers
  | returnValue value =>
    obtain ⟨m, peers, agrees, rfl⟩ := peers
    have within' : EndsWithin below.length bound (onMachine (Machine.giveBack value) s) :=
      within.first fun _ t => ⟨_, t, rfl, rfl, rfl⟩
    refine Matched.bind (matched_onMachine agrees (Machine.peers_giveBack number peers ?_))
      fun _ _ _ _ peers' => .ok peers'
    cases run : Machine.giveBack value s.machine with
    | ok a m' =>
      rw [onMachine_of_ok run] at within'
      exact within'.1
    | error e m' =>
      rw [onMachine_of_error run] at within'
      exact ⟨within'.1.1, fun _ => trivial⟩
  | callPacked _ packed arguments =>
    have called := Machine.peers_callPacked number packed arguments inst.store
    exact ((across_onMachine called).bind fun _ => .pure _) s t peers

omit [Host H] in
theorem kept_random_finish (value : UInt16) :
    Kept (fun t => t.random = s.random) (fun _ => True) (finish inst value s) := by
  refine Kept.bind ?_ fun _ _ _ same => same
  rw [storeResult]
  cases inst.store with
  | some number => exact maintains_onMachine (fun _ same => same) _ s rfl
  | none => exact rfl

/-- The seed that `random` may ask for is one of those that are the same. -/
theorem peers_executeRandom (number : below.length = others.length)
    (peers : Across (Machine.Peers below others) other bound s t)
    (within : EndsWithin below.length bound (executeRandom inst values s)) :
    Matched (Across (Machine.Peers below others) other bound)
      (Across (Machine.Peers below others) other bound) (executeRandom inst values s)
      (executeRandom inst values t) := by
  have congruence : Congruence (Across (Machine.Peers below others) other bound :
      Interpreter H → Interpreter H → Prop) := congruence_peers number
  refine (congruence.works (.operand 0) s t peers).bind fun range s' t' given peers' => ?_
  obtain ⟨m, related, agrees, rfl⟩ := peers'
  let rolled := (s'.random.roll (Word.signed range)).2
  have finishing : EndsWithin below.length bound
      (finish inst (s'.random.roll (Word.signed range)).1 { s' with random := rolled }) :=
    (within.rest given).rest rfl
  have asked : rolled.entropy.asked ≤ bound := by
    have ended := (inv_after_of_kept finishing).2
    rw [inv_after_of_kept (kept_random_finish _)] at ended
    exact ended
  obtain ⟨same, agrees'⟩ := Random.roll_supplied agrees asked
  have rolling : Matched (Across (Machine.Peers below others) other bound)
      (Across (Machine.Peers below others) other bound) (roll (Word.signed range) s')
      (roll (Word.signed range)
        { s' with machine := m, random := s'.random.supplied other }) := by
    simp only [roll, same]
    exact .ok ⟨m, related, agrees', rfl⟩
  refine rolling.bind fun value s'' t'' _ peers'' => ?_
  exact ((congruence.works (.storeResult value)).bind fun _ => .pure _) s'' t'' peers''

theorem peers_executeRead (number : below.length = others.length) :
    Alike (Across (Machine.Peers below others) other bound)
      (executeRead inst values : Play H Outcome) (executeRead inst values) := by
  have congruence : Congruence (Across (Machine.Peers below others) other bound :
      Interpreter H → Interpreter H → Prop) := congruence_peers number
  refine (congruence.works (.operand 0)).bind fun text => ?_
  refine (congruence.works .showStatus).bind fun _ => ?_
  refine (congruence.ask fun _ _ => rfl).bind fun length => Alike.bind ?_ fun line => ?_
  · rintro s _ ⟨m, peers, agrees, rfl⟩
    exact .ok ⟨m, peers, agrees, rfl⟩
  · cases line with
    | some line =>
      refine Alike.bind ?_ fun _ => .pure _
      rintro s _ ⟨m, peers, agrees, rfl⟩
      exact matched_onMachine agrees ((Machine.inFrame_storeLine _ _ _ _).peers _ _ peers)
    | none =>
      have waiting : Alike (Across (Machine.Peers below others) other bound)
          (await text (values.getD 1 0) : Play H Unit) (await text (values.getD 1 0)) :=
        across_modify (fun _ => rfl) (fun _ => rfl) fun _ _ _ => rfl
      exact waiting.bind fun _ => .pure _

/-- An instruction that does not save, restore or restart does the same for peers, unless it returns
to the frames below those that they share. -/
theorem peers_execute (number : below.length = others.length)
    (inward : wholesale inst.opcode = false)
    (peers : Across (Machine.Peers below others) other bound s t)
    (within : EndsWithin below.length bound (execute inst s)) :
    Matched (Across (Machine.Peers below others) other bound)
      (Across (Machine.Peers below others) other bound) (execute inst s) (execute inst t) := by
  have resolving := (congruence_peers number).works (.resolveAll inst.operands) s t peers
  refine resolving.bind fun values s' t' run peers' => ?_
  cases out : outward inst.opcode with
  | false => exact peers_ending number (.executeWith out) peers' (within.rest run)
  | true =>
    rw [executeWith]
    rcases eq_of_outward out with op | op | whole
    · rw [op]
      exact peers_executeRead number s' t' peers'
    · rw [op]
      have rolling := within.rest run
      rw [executeWith, op] at rolling
      exact peers_executeRandom number peers' rolling
    · rw [inward] at whole
      cases whole

end Interpreter

end ZMachine
