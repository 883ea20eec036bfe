import ZMachine.Proofs.Interpreter.Alike
import ZMachine.Proofs.Interpreter.Progress

/-!
# Runs on hosts that answer alike

Hosts of different kinds may give the same lines (`Answering`), and the same saved games
(`Keeping`). Interpreters that are the same but for such hosts, and for random numbers that come out
the same, execute instructions alike (`alike_executeWith`). Where the instruction under way stands
is of no account at the start of a step, which begins by finding that out; so runs of `Companions`,
which may differ in it, go alike as well (`Companions.run`). What random numbers and saved games
have to do with it is asked only of the instructions that are executed.
-/

namespace ZMachine.Interpreter

variable {H K : Type} {places : Nat → Nat → Prop} {hosts : H → K → Prop}
  {randoms : Random → Random → Prop} {inst : Instruction} {values : List UInt16}

/-- Related hosts give the same lines, too. -/
structure Answering [Host H] [Host K] (hosts : H → K → Prop) : Prop extends Responsive hosts where
  read : ∀ {host other} (length : Nat), hosts host other →
    (Host.read other length).1 = (Host.read host length).1 ∧
      hosts (Host.read host length).2 (Host.read other length).2

/-- Related hosts keep the same games and have the same games to restore. -/
structure Keeping [Host H] [Host K] (hosts : H → K → Prop) : Prop where
  save : ∀ {host other} (bytes : List UInt8), hosts host other →
    (Host.save other bytes).1 = (Host.save host bytes).1 ∧
      hosts (Host.save host bytes).2 (Host.save other bytes).2
  restore : ∀ {host other}, hosts host other →
    (Host.restore other).1 = (Host.restore host).1 ∧
      hosts (Host.restore host).2 (Host.restore other).2

/-- Related random numbers come out the same in a range. -/
def Rolling (randoms : Random → Random → Prop) (range : Int) : Prop :=
  ∀ r r', randoms r r' →
    (r'.roll range).1 = (r.roll range).1 ∧ randoms (r.roll range).2 (r'.roll range).2

theorem rolling_eq (range : Int) : Rolling Eq range := by
  rintro r _ rfl
  exact ⟨rfl, rfl⟩

/-- Random numbers from the same seed. -/
def SameSeed (r r' : Random) : Prop :=
  r'.seed = r.seed

/-- Only a request for unpredictable numbers makes a difference. -/
theorem rolling_sameSeed {range : Int} (ne : range ≠ 0) : Rolling SameSeed range := by
  intro r r' same
  rw [Random.roll, Random.roll, Random.draw, Random.draw, same]
  split
  · exact ⟨rfl, rfl⟩
  -- By `ne` the range is negative, so it is the new seed of both.
  · exact ⟨rfl, rfl⟩

/-- The instruction does not tell related random numbers and related hosts apart. -/
structure Indifferent [Host H] [Host K] (hosts : H → K → Prop) (randoms : Random → Random → Prop)
    (inst : Instruction) (values : List UInt16) : Prop where
  random : inst.opcode = .random → ∀ range, values[0]? = some range →
    Rolling randoms (Word.signed range)
  keeping : inst.opcode = .save ∨ inst.opcode = .restore → Keeping hosts

theorem Keeping.indifferent [Host H] [Host K] (k : Keeping hosts) (inst : Instruction)
    (values : List UInt16) : Indifferent hosts Eq inst values :=
  ⟨fun _ _ _ => rolling_eq _, fun _ => k⟩

/-- The instruction neither saves nor restores a game, nor asks for unpredictable numbers. -/
structure SelfContained (inst : Instruction) (values : List UInt16) : Prop where
  ne_save : inst.opcode ≠ .save
  ne_restore : inst.opcode ≠ .restore
  range_ne : inst.opcode = .random → values[0]? ≠ some 0

theorem SelfContained.indifferent [Host H] [Host K] (h : SelfContained inst values) :
    Indifferent hosts SameSeed inst values where
  random op range given := by
    have ne : range ≠ 0 := fun zero => h.range_ne op (zero ▸ given)
    exact rolling_sameSeed fun zero => ne (Word.signed_eq_zero.mp zero)
  keeping op := (op.elim h.ne_save h.ne_restore).elim

/-- The interpreters differ at most in their hosts and random numbers, and in where the instruction
under way stands. -/
abbrev Companions (hosts : H → K → Prop) (randoms : Random → Random → Prop) :
    Interpreter H → Interpreter K → Prop :=
  Kindred (fun _ _ => True) hosts randoms Eq

theorem Twins.companions {s : Interpreter H} {t : Interpreter K} (h : Twins hosts randoms Eq s t) :
    Companions hosts randoms s t :=
  h.kindred fun _ => trivial

variable [Host H] [Host K]

/-! ### Instructions -/

theorem alike_executeRandom (r : Responsive hosts)
    (rolling : ∀ range, values[0]? = some range → Rolling randoms (Word.signed range)) :
    Alike (Twins hosts randoms Eq) (executeRandom inst values) (executeRandom inst values) := by
  intro s t h
  refine ((alike_works r (.operand 0)) s t h).bind fun range s' t' given h' => ?_
  obtain ⟨value, related⟩ := rolling range (operand_eq_ok.mp given).1 _ _ h'.randoms
  exact (matched_roll h' value related).bind fun value s'' t'' _ h'' =>
    alike_ending r (.finish value) s'' t'' h''

theorem alike_executeRead (r : Answering hosts) :
    Alike (Twins hosts randoms Eq) (executeRead inst values) (executeRead inst values) := by
  have r' := r.toResponsive
  refine (alike_works r' (.operand 0)).bind fun text => ?_
  refine (alike_works r' .showStatus).bind fun _ => (alike_ask _).bind fun length => ?_
  refine (alike_onHost fun _ _ related => r.read length related).bind fun line => ?_
  cases line with
  | some line => exact (alike_storeLine line text _).bind fun _ => .pure _
  | none => exact (Alike.modify fun _ _ h => { h with states := rfl }).bind fun _ => .pure _

theorem alike_restoreState (r : Responsive hosts) (same : ∀ place, places place place)
    (bytes : List UInt8) :
    Alike (Kindred places hosts randoms Eq) (restoreState bytes) (restoreState bytes) := by
  refine (alike_ask _).bind fun snapshot => (alike_ask _).bind fun inst => ?_
  exact alike_resume r same rfl (fun _ _ _ => rfl) inst

theorem alike_executeSave (r : Responsive hosts) (k : Keeping hosts) :
    Alike (Twins hosts randoms Eq) (executeSave inst) (executeSave inst) := by
  intro s t h
  rw [executeSave, executeSave, get_bind, get_bind, h.currentPc_eq]
  refine ((alike_ask _).bind fun bytes => ?_) s t h
  refine (alike_onHost fun _ _ related => k.save bytes related).bind fun saved => ?_
  exact alike_ending r (.branchIf saved)

theorem alike_executeRestore (r : Responsive hosts) (k : Keeping hosts) :
    Alike (Twins hosts randoms Eq) (executeRestore inst) (executeRestore inst) := by
  have asking : Alike (Twins hosts randoms Eq) (onHost Host.restore) (onHost Host.restore) :=
    alike_onHost fun _ _ related => k.restore related
  have restoring (bytes : List UInt8) : Alike (Twins hosts randoms Eq) (restoreState bytes)
      (restoreState bytes) := by
    refine alike_restoreState r (fun place => ?_) bytes
    rfl
  exact fun s t h => Matched.executeRestore (asking s t h)
    (fun bytes s' t' _ h' => restoring bytes s' t' h') (alike_ending r (.branchIf false))
    fun _ _ h' => h'

theorem alike_executeWith (r : Answering hosts) (same : Indifferent hosts randoms inst values) :
    Alike (Twins hosts randoms Eq) (executeWith inst values) (executeWith inst values) := by
  cases out : outward inst.opcode with
  | false => exact alike_ending r.toResponsive (.executeWith out)
  | true =>
    rw [executeWith, executeWith]
    rcases eq_of_outward out with op | op | whole
    · rw [op]
      exact alike_executeRead r
    · rw [op]
      exact alike_executeRandom r.toResponsive (same.random op)
    · rcases eq_of_wholesale whole with op | op | op
      · rw [op]
        exact alike_executeSave r.toResponsive (same.keeping (.inl op))
      · rw [op]
        exact alike_executeRestore r.toResponsive (same.keeping (.inr op))
      · rw [op]
        exact (alike_restart r.toResponsive rfl).bind fun _ => .pure _

/-! ### Steps and runs -/

variable {s : Interpreter H} {t : Interpreter K}

/-- A step from here fetches the instruction, and its operands have the values. -/
def Executes (s : Interpreter H) (inst : Instruction) (values : List UInt16) : Prop :=
  ∃ t u, fetch s = .ok inst t ∧ resolveAll inst.operands t = .ok values u

/-- A run from here comes to execute the instruction. -/
def Executed (s : Interpreter H) (inst : Instruction) (values : List UInt16) : Prop :=
  ∃ t, Passes s t ∧ t.state = .running ∧ t.exhausted = none ∧ Executes t inst values

theorem Companions.step (r : Answering hosts) (h : Companions hosts randoms s t)
    (same : ∀ inst values, Executes s inst values → Indifferent hosts randoms inst values) :
    Matched (Twins hosts randoms Eq) (Companions hosts randoms) (Interpreter.step s)
      (Interpreter.step t) := by
  refine (matched_fetch h).bind fun inst s₁ t₁ fetched h₁ => ?_
  have executed : Matched (Twins hosts randoms Eq) (Twins hosts randoms Eq) (execute inst s₁)
      (execute inst t₁) := by
    refine (alike_works r.toResponsive (.resolveAll inst.operands) s₁ t₁ h₁).bind
      fun values s₂ t₂ resolved h₂ => ?_
    exact alike_executeWith r (same inst values ⟨s₁, s₂, fetched, resolved⟩) s₂ t₂ h₂
  refine (executed.mono (fun _ _ twins => twins) fun _ _ twins => twins.companions).bind
    fun outcome s₂ t₂ _ h₂ => ?_
  dsimp only
  split
  · exact .ok { h₂ with states := rfl }
  · exact .ok h₂

/-- By induction on the fuel, of which each step uses up one unit. -/
theorem Companions.run {bound : Nat} (r : Answering hosts) (fuel : s.fuel = bound)
    (h : Companions hosts randoms s t)
    (same : ∀ inst values, Executed s inst values → Indifferent hosts randoms inst values) :
    Matched (Companions hosts randoms) (Companions hosts randoms) (Interpreter.run s)
      (Interpreter.run t) := by
  induction bound generalizing s t with
  | zero => cases fuel
  | succ bound ih =>
    by_cases running : s.state = .running
    · have running' : t.state = .running := h.states.symm.trans running
      have exhausted_eq : t.exhausted = s.exhausted := by
        rw [exhausted, exhausted, h.limit_eq, h.count_eq]
      cases more : s.exhausted with
      | some limit =>
        rw [run_of_exhausted running more,
          run_of_exhausted running' (exhausted_eq.trans more)]
        exact .error h
      | none =>
        rw [run_of_running running more, run_of_running running' (exhausted_eq.trans more)]
        have first : ∀ inst values, Executes s inst values →
            Indifferent hosts randoms inst values := fun inst values executes =>
          same inst values ⟨s, .here s, running, more, executes⟩
        refine (h.step r first).bind fun outcome s' t' stepped h' => ?_
        have less := fuel_of_step more stepped
        refine ih (by omega) h'.companions fun inst values executed => ?_
        obtain ⟨u, passes, rest⟩ := executed
        exact same inst values ⟨u, .step running more stepped passes, rest⟩
    · have stopped : t.state ≠ .running := h.states ▸ running
      rw [run_of_stopped running, run_of_stopped stopped, h.states]
      exact .ok h

end ZMachine.Interpreter
