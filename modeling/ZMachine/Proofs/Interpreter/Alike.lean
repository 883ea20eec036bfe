import ZMachine.Interpreter.Run
import ZMachine.Proofs.Interpreter.Composition
import ZMachine.Proofs.Interpreter.Request

/-!
# Interpreters side by side

Two runs are `Matched` if they come to the same value, or fail for the same reason, in related
states; two programs are `Alike` for a relation if runs of them that start in related states are
matched by it. For a relation that the parts of programs respect (`Congruence`), programs that stay
in the running routine are alike.

`Kindred` interpreters differ at most in their hosts, which may be of different kinds, their random
numbers, their run states, and the addresses of the instruction under way. Whatever relations hold
between these, as long as hosts stay related when they are told the same, programs that do not
mention the instruction under way are alike for them. For `Twins`, which execute the same
instruction, so are instructions that do not depend on anything outside the machine
(`alike_ending`).
-/

namespace ZMachine

section Matched

variable {ε σ τ α β : Type} {R R' E E' : σ → τ → Prop}

/-- Two runs have come to the same value in states related by `R`, or have failed for the same
reason in states related by `E`. -/
inductive Matched (R E : σ → τ → Prop) : EStateM.Result ε σ α → EStateM.Result ε τ α → Prop
  | ok {a : α} {s : σ} {t : τ} (h : R s t) : Matched R E (.ok a s) (.ok a t)
  | error {e : ε} {s : σ} {t : τ} (h : E s t) : Matched R E (.error e s) (.error e t)

theorem Matched.mono {r : EStateM.Result ε σ α} {q : EStateM.Result ε τ α} (h : Matched R E r q)
    (success : ∀ s t, R s t → R' s t) (failure : ∀ s t, E s t → E' s t) : Matched R' E' r q := by
  cases h with
  | ok h => exact .ok (success _ _ h)
  | error h => exact .error (failure _ _ h)

theorem Matched.ite {p q : Prop} [Decidable p] [Decidable q] {r r' : EStateM.Result ε σ α}
    {w w' : EStateM.Result ε τ α} (same : q ↔ p) (first : p → Matched R E r w)
    (second : ¬ p → Matched R E r' w') :
    Matched R E (if p then r else r') (if q then w else w') := by
  by_cases h : p
  · rw [if_pos h, if_pos (same.mpr h)]
    exact first h
  · rw [if_neg h, if_neg (mt same.mp h)]
    exact second h

theorem Matched.bind {x : EStateM ε σ α} {y : EStateM ε τ α} {f : α → EStateM ε σ β}
    {g : α → EStateM ε τ β} {s : σ} {t : τ} (first : Matched R E (x s) (y t))
    (rest : ∀ a s' t', x s = .ok a s' → R s' t' → Matched R' E (f a s') (g a t')) :
    Matched R' E ((x >>= f) s) ((y >>= g) t) := by
  generalize left : x s = r at first
  generalize right : y t = q at first
  cases first with
  | ok h =>
    rw [bind_of_ok left, bind_of_ok right]
    exact rest _ _ _ left h
  | error h =>
    rw [bind_of_error left, bind_of_error right]
    exact .error h

/-- The programs do the same to related states. -/
def Alike (R : σ → τ → Prop) (x : EStateM ε σ α) (y : EStateM ε τ α) : Prop :=
  ∀ s t, R s t → Matched R R (x s) (y t)

theorem Alike.pure (a : α) :
    Alike R (Pure.pure a : EStateM ε σ α) (Pure.pure a : EStateM ε τ α) :=
  fun _ _ h => .ok h

theorem Alike.bind {x : EStateM ε σ α} {y : EStateM ε τ α} {f : α → EStateM ε σ β}
    {g : α → EStateM ε τ β} (first : Alike R x y) (rest : ∀ a, Alike R (f a) (g a)) :
    Alike R (x >>= f) (y >>= g) :=
  fun s t h => (first s t h).bind fun a s' t' _ h' => rest a s' t' h'

theorem Alike.throw (e : ε) :
    Alike R (throw e : EStateM ε σ α) (throw e : EStateM ε τ α) :=
  fun _ _ h => .error h

theorem Alike.ite {p : Prop} [Decidable p] {x x' : EStateM ε σ α} {y y' : EStateM ε τ α}
    (yes : p → Alike R x y) (no : ¬ p → Alike R x' y') :
    Alike R (if p then x else x') (if p then y else y') := by
  split
  · exact yes ‹_›
  · exact no ‹_›

theorem Alike.modify {f : σ → σ} {g : τ → τ} (h : ∀ s t, R s t → R (f s) (g t)) :
    Alike R (modify f : EStateM ε σ Unit) (modify g : EStateM ε τ Unit) :=
  fun s t related => .ok (h s t related)

end Matched

namespace Interpreter

variable {H K : Type}

/-- What matched runs give, and the states in which they end. -/
theorem result_eq_of_matched {R : Interpreter H → Interpreter K → Prop} {α : Type} {x : Play H α}
    {y : Play K α} {s : Interpreter H} {t : Interpreter K} (matched : Matched R R (x s) (y t)) :
    result y t = result x s ∧ R (after x s) (after y t) := by
  simp only [result, after]
  generalize x s = r at matched ⊢
  generalize y t = q at matched ⊢
  cases matched with
  | ok related => exact ⟨rfl, related⟩
  | error related => exact ⟨rfl, related⟩

/-- The parts of programs that stay in the running routine respect the relation. -/
structure Congruence [Host H] [Host K] (R : Interpreter H → Interpreter K → Prop) : Prop where
  refuse : ∀ {α : Type} (why : DecodeFault),
    Alike R (refuse why : Play H α) (refuse why : Play K α)
  selected : Alike R selected selected
  modifyStreams : ∀ f : Streams → Streams,
    Alike R (modify fun s => { s with streams := f s.streams } : Play H Unit)
      (modify fun t => { t with streams := f t.streams } : Play K Unit)
  tell : ∀ notice : Notice,
    Alike R (tellHost fun host => notice.send host) (tellHost fun host => notice.send host)
  inFrame : ∀ {α : Type} {operation : MachineM α}, Machine.InFrame operation →
    Alike R (onMachine operation) (onMachine operation)
  change : ∀ {α : Type} {operation : MachineM α}, Change operation → Machine.Stays operation →
    Alike R (onMachine operation) (onMachine operation)

namespace Congruence

variable [Host H] [Host K] {R : Interpreter H → Interpreter K → Prop} {α : Type}

theorem ask (c : Congruence R) {f : Machine → Except MachineError α}
    (oblivious : Machine.Oblivious f) : Alike R (ask f) (ask f) :=
  c.inFrame (.query oblivious)

theorem openTable (c : Congruence R) (table : Option UInt16) :
    Alike R (openTable table) (openTable table) := by
  cases table with
  | none => exact c.refuse _
  | some table =>
    refine c.selected.bind fun streams => ?_
    dsimp only
    split
    · exact c.refuse _
    · refine (c.inFrame (Machine.inFrame_writeWord _ _)).bind fun _ => ?_
      exact c.modifyStreams fun streams => { streams with tables := table :: streams.tables }

theorem selectStream (c : Congruence R) (stream : Int) (table : Option UInt16) :
    Alike R (selectStream stream table) (selectStream stream table) := by
  simp only [Interpreter.selectStream]
  split
  · exact c.modifyStreams fun streams => { streams with screen := true }
  split
  · exact c.modifyStreams fun streams => { streams with screen := false }
  split
  · exact c.inFrame (Machine.inFrame_setTranscript true)
  split
  · exact c.inFrame (Machine.inFrame_setTranscript false)
  split
  · exact c.openTable table
  split
  · exact c.modifyStreams fun streams => { streams with tables := streams.tables.tail }
  · exact .pure ()

theorem works (c : Congruence R) {x : Play H α} {y : Play K α} (h : Works x y) : Alike R x y := by
  induction h with
  | pure a => exact .pure a
  | bind _ _ first rest => exact first.bind rest
  | refuse why => exact c.refuse why
  | ask q => exact c.ask q.oblivious
  | change change stays => exact c.change change stays
  | tell notice => exact c.tell notice
  | selected => exact c.selected
  | selectStream stream table => exact c.selectStream stream table

end Congruence

/-- What `restore` comes to, given what restoring the game comes to that the hosts have kept. -/
theorem Matched.executeRestore [Host H] [Host K] {R E : Interpreter H → Interpreter K → Prop}
    {inst : Instruction} {s : Interpreter H} {t : Interpreter K}
    (asking : Matched R E (onHost Host.restore s) (onHost Host.restore t))
    (restoring : ∀ bytes s' t', onHost Host.restore s = .ok (some bytes) s' → R s' t' →
      Matched R R (restoreState bytes s') (restoreState bytes t'))
    (branching : Alike R (branchIf inst false) (branchIf inst false))
    (weaken : ∀ s t, R s t → E s t) :
    Matched R E (executeRestore inst s) (executeRestore inst t) := by
  have failing : ∀ s' t', R s' t' →
      Matched R E (branchIf inst false s') (branchIf inst false t') := fun s' t' related =>
    (branching s' t' related).mono (fun _ _ h => h) weaken
  refine asking.bind fun held s' t' asked related => ?_
  cases held with
  | none => exact failing s' t' related
  | some bytes =>
    have matched := restoring bytes s' t' asked related
    dsimp only
    generalize restoreState bytes s' = left at matched
    generalize restoreState bytes t' = right at matched
    cases matched with
    | ok done => exact .ok done
    | @error e _ _ refused =>
      cases e with
      | fault => exact .error (weaken _ _ refused)
      | _ => exact failing _ _ refused

/-- The interpreters differ at most in their hosts, random numbers and run states, and in where the
instruction under way stands. -/
structure Kindred (places : Nat → Nat → Prop) (hosts : H → K → Prop)
    (randoms : Random → Random → Prop) (states : RunState → RunState → Prop) (s : Interpreter H)
    (t : Interpreter K) : Prop where
  machine_eq : t.machine = s.machine
  dictionary_eq : t.dictionary = s.dictionary
  streams_eq : t.streams = s.streams
  currentPc_eq : places s.currentPc t.currentPc
  count_eq : t.count = s.count
  limit_eq : t.limit = s.limit
  hosts : hosts s.host t.host
  randoms : randoms s.random t.random
  states : states s.state t.state

/-- The interpreters differ at most in their hosts, random numbers and run states. -/
abbrev Twins (hosts : H → K → Prop) (randoms : Random → Random → Prop)
    (states : RunState → RunState → Prop) : Interpreter H → Interpreter K → Prop :=
  Kindred (fun place other => other = place) hosts randoms states

/-- Related hosts stay related when they are told the same, and split the screen alike. -/
structure Responsive [Host H] [Host K] (hosts : H → K → Prop) : Prop where
  tell : ∀ {host other} (notice : Notice), hosts host other →
    hosts (notice.send host) (notice.send other)
  restarted : ∀ {host other}, hosts host other →
    hosts (Host.restarted host) (Host.restarted other)
  supportsSplit_eq : ∀ {host other}, hosts host other →
    Host.supportsSplit other = Host.supportsSplit host

variable {places : Nat → Nat → Prop} {hosts : H → K → Prop} {randoms : Random → Random → Prop}
  {states : RunState → RunState → Prop} {α : Type}

theorem Twins.kindred {s : Interpreter H} {t : Interpreter K} (same : ∀ place, places place place)
    (h : Twins hosts randoms states s t) : Kindred places hosts randoms states s t :=
  { h with
    currentPc_eq := by
      rw [h.currentPc_eq]
      exact same _ }

theorem alike_onMachine (operation : MachineM α) :
    Alike (Kindred places hosts randoms states) (onMachine operation) (onMachine operation) := by
  intro s t h
  cases run : operation s.machine with
  | ok a m =>
    rw [onMachine_of_ok run, onMachine_of_ok (h.machine_eq ▸ run)]
    exact .ok { h with machine_eq := rfl }
  | error e m =>
    rw [onMachine_of_error run, onMachine_of_error (h.machine_eq ▸ run)]
    exact .error { h with machine_eq := rfl }

theorem alike_ask (f : Machine → Except MachineError α) :
    Alike (Kindred places hosts randoms states) (ask f) (ask f) :=
  alike_onMachine (Machine.query f)

theorem alike_refuse (why : DecodeFault) :
    Alike (Twins hosts randoms states) (refuse why : Play H α) (refuse why : Play K α) := by
  intro s t h
  rw [refuse, refuse, h.currentPc_eq]
  exact .error h

theorem alike_failDivision :
    Alike (Twins hosts randoms states) failDivision failDivision := by
  intro s t h
  rw [failDivision, failDivision, h.currentPc_eq]
  exact .error h

theorem alike_onHost {operation : H → α × H} {other : K → α × K}
    (same : ∀ host host', hosts host host' → (other host').1 = (operation host).1 ∧
      hosts (operation host).2 (other host').2) :
    Alike (Kindred places hosts randoms states) (onHost operation) (onHost other) := by
  intro s t h
  obtain ⟨value, after⟩ := same _ _ h.hosts
  show Matched _ _ (.ok (operation s.host).1 { s with host := (operation s.host).2 })
    (.ok (other t.host).1 { t with host := (other t.host).2 })
  rw [value]
  exact .ok { h with hosts := after }

theorem alike_storeLine (line : String) (text parse : UInt16) :
    Alike (Kindred places hosts randoms states) (storeLine line text parse)
      (storeLine line text parse) := by
  intro s t h
  rw [storeLine, storeLine, get_bind, get_bind, h.dictionary_eq]
  exact alike_onMachine _ s t h

/-- Whatever instruction has been under way, both interpreters go on to the same one. -/
theorem matched_fetch {s : Interpreter H} {t : Interpreter K}
    (h : Kindred places hosts randoms states s t) :
    Matched (Twins hosts randoms states) (Kindred places hosts randoms states) (fetch s)
      (fetch t) := by
  rw [fetch, fetch, get_bind, get_bind, h.machine_eq, h.count_eq]
  refine (alike_ask _ s t h).bind fun inst _ _ _ decoded => ?_
  refine (alike_ask _ _ _ decoded).bind fun next _ _ _ moved => ?_
  split
  · exact .error moved
  · exact .ok { moved with
      machine_eq := congrArg (fun m => { m with pc := next }) moved.machine_eq
      currentPc_eq := rfl
      count_eq := congrArg (· + 1) moved.count_eq }

theorem alike_fetch :
    Alike (Twins hosts randoms states) (fetch : Play H Instruction)
      (fetch : Play K Instruction) :=
  fun _ _ h => matched_fetch h

theorem matched_roll {randoms' : Random → Random → Prop} {s : Interpreter H} {t : Interpreter K}
    {E : Interpreter H → Interpreter K → Prop} {range : Int}
    (h : Kindred places hosts randoms states s t)
    (value : (t.random.roll range).1 = (s.random.roll range).1)
    (related : randoms' (s.random.roll range).2 (t.random.roll range).2) :
    Matched (Kindred places hosts randoms' states) E (roll range s) (roll range t) := by
  show Matched _ _ (.ok (s.random.roll range).1 { s with random := (s.random.roll range).2 })
    (.ok (t.random.roll range).1 { t with random := (t.random.roll range).2 })
  rw [value]
  exact .ok { h with randoms := related }

variable [Host H] [Host K]

theorem congruence_twins (r : Responsive hosts) : Congruence (Twins hosts randoms states) where
  refuse := alike_refuse
  selected := by
    intro s t h
    rw [selected, selected, h.streams_eq]
    exact .ok h
  modifyStreams f := Alike.modify fun _ _ h => { h with streams_eq := congrArg f h.streams_eq }
  tell notice := Alike.modify fun _ _ h => { h with hosts := r.tell notice h.hosts }
  inFrame _ := alike_onMachine _
  change _ _ := alike_onMachine _

theorem alike_works (r : Responsive hosts) {x : Play H α} {y : Play K α} (h : Works x y) :
    Alike (Twins hosts randoms states) x y :=
  (congruence_twins r).works h

theorem alike_ending (r : Responsive hosts) {inst : Instruction} {x : Play H Outcome}
    {y : Play K Outcome} (h : Ending inst x y) : Alike (Twins hosts randoms states) x y := by
  induction h with
  | bind first _ rest => exact (alike_works r first).bind rest
  | goOn => exact .pure _
  | quit => exact .pure _
  | failDivision => exact alike_failDivision
  | jumpBy offset => exact (alike_onMachine _).bind fun _ => .pure _
  | returnValue value => exact (alike_onMachine _).bind fun _ => .pure _
  | callPacked _ packed arguments => exact (alike_onMachine _).bind fun _ => .pure _

theorem alike_prepareHeader (r : Responsive hosts) :
    Alike (Kindred places hosts randoms states) prepareHeader prepareHeader := by
  refine (alike_ask _).bind fun flags1 s t h => ?_
  rw [get_bind, get_bind, r.supportsSplit_eq h.hosts]
  exact alike_onMachine _ s t h

/-- What has started afresh is running. -/
theorem alike_restart (r : Responsive hosts) (both : states .running .running) :
    Alike (Kindred places hosts randoms states) restart restart := by
  refine (alike_onMachine _).bind fun _ => (alike_prepareHeader r).bind fun _ => ?_
  refine (Alike.modify fun _ _ h => ?_).bind fun _ => Alike.modify fun _ _ h => ?_
  · exact { h with streams_eq := rfl, states := both }
  · exact { h with hosts := r.restarted h.hosts }

theorem alike_takeOver (r : Responsive hosts) (both : states .running .running)
    (snapshot : Snapshot) :
    Alike (Kindred places hosts randoms states) (takeOver snapshot) (takeOver snapshot) := by
  refine (alike_onMachine _).bind fun _ => (alike_prepareHeader r).bind fun _ => ?_
  refine Alike.modify fun _ _ h => { h with streams_eq := ?_, states := both }
  rw [h.streams_eq]

theorem alike_finishSave (r : Responsive hosts) (same : ∀ place, places place place)
    (inst : Instruction) :
    Alike (Kindred places hosts randoms states) (finishSave inst) (finishSave inst) := by
  intro s t h
  have begun : Twins hosts randoms states
      { s with
        currentPc := s.machine.pc
        machine := { s.machine with pc := s.machine.pc + inst.size } }
      { t with
        currentPc := t.machine.pc
        machine := { t.machine with pc := t.machine.pc + inst.size } } :=
    { h with
      machine_eq := by rw [h.machine_eq]
      currentPc_eq := by rw [h.machine_eq] }
  have ending : Alike (Twins hosts randoms states) (do let _ ← branchIf inst true)
      (do let _ ← branchIf inst true) :=
    (alike_ending r (.branchIf true)).bind fun _ => .pure ()
  exact (ending _ _ begun).mono (fun _ _ h' => h'.kindred same) fun _ _ h' => h'.kindred same

/-- Going on in a saved game. -/
theorem alike_resume (r : Responsive hosts) (same : ∀ place, places place place)
    (both : states .running .running) {snapshot : Snapshot}
    (waits : ∀ text parse, snapshot.head.resume = .awaitingInput text parse →
      states (.waiting text parse) (.waiting text parse))
    (inst : Option Instruction) :
    Alike (Kindred places hosts randoms states) (resume snapshot inst) (resume snapshot inst) := by
  have awaiting : ∀ text parse, snapshot.head.resume = .awaitingInput text parse →
      Alike (Kindred places hosts randoms states) (await text parse) (await text parse) :=
    fun text parse point => Alike.modify fun _ _ h => { h with states := waits text parse point }
  refine (alike_takeOver r both snapshot).bind fun _ => ?_
  cases inst with
  | none =>
    cases point : snapshot.head.resume with
    | awaitingInput text parse => exact awaiting text parse point
    | atPc | saveInstruction => exact .pure ()
  | some inst =>
    refine (alike_finishSave r same inst).bind fun _ => ?_
    cases point : snapshot.head.resume with
    | awaitingInput text parse => exact awaiting text parse point
    | atPc | saveInstruction => exact .pure ()

end Interpreter

end ZMachine
