import ZMachine.Interpreter.Control

/-!
# Sequences of operations

How an operation that is made of two runs: `bind_of_ok` and `bind_of_error` go forward from what
the first one does, `bind_eq_ok` and `bind_eq_error` go back from what both have done.

`Keeps inv excused x` says that `x` leads from states with the invariant to such states, also when
it fails, and that it fails by a fault only in states that are excused. It is closed under
sequencing, so it holds of a program as soon as it holds of its parts; `Kept` is the same about a
single run, for parts that need to know what was read before them.
-/

namespace ZMachine

section Sequence

variable {ε σ α β : Type} {x : EStateM ε σ α} {f : α → EStateM ε σ β} {s t : σ}

theorem bind_of_ok {a : α} (h : x s = .ok a t) : (x >>= f) s = f a t := by
  simp only [bind, EStateM.bind, h]

theorem bind_of_error {e : ε} (h : x s = .error e t) : (x >>= f) s = .error e t := by
  simp only [bind, EStateM.bind, h]

theorem bind_eq_ok {b : β} :
    (x >>= f) s = .ok b t ↔ ∃ a mid, x s = .ok a mid ∧ f a mid = .ok b t := by
  cases h : x s with
  | ok a mid =>
    rw [bind_of_ok h]
    constructor
    · intro run
      exact ⟨a, mid, rfl, run⟩
    · rintro ⟨a, mid, eq, run⟩
      cases eq
      exact run
  | error e mid =>
    rw [bind_of_error h]
    simp

theorem get_bind {g : σ → EStateM ε σ β} : (get >>= g) s = g s s := rfl

theorem bind_eq_error {e : ε} :
    (x >>= f) s = .error e t ↔
      x s = .error e t ∨ ∃ a mid, x s = .ok a mid ∧ f a mid = .error e t := by
  cases h : x s with
  | ok a mid =>
    rw [bind_of_ok h]
    constructor
    · intro run
      exact Or.inr ⟨a, mid, rfl, run⟩
    · rintro (eq | ⟨a, mid, eq, run⟩)
      · cases eq
      · cases eq
        exact run
  | error e mid =>
    rw [bind_of_error h]
    simp

end Sequence

section Except

variable {ε α β : Type} {x : Except ε α} {f : α → Except ε β}

theorem except_bind_eq_ok {b : β} :
    (x >>= f) = .ok b ↔ ∃ a, x = .ok a ∧ f a = .ok b := by
  cases x <;> simp [bind, Except.bind]

theorem except_bind_eq_error {e : ε} :
    (x >>= f) = .error e ↔ x = .error e ∨ ∃ a, x = .ok a ∧ f a = .error e := by
  cases x <;> simp [bind, Except.bind]

theorem except_map_eq_ok {g : α → β} {b : β} : x.map g = .ok b ↔ ∃ a, x = .ok a ∧ g a = b := by
  cases x <;> simp [Except.map]

theorem bind_ne_error {e : ε} (hx : x ≠ .error e) (hf : ∀ a, x = .ok a → f a ≠ .error e) :
    (x >>= f) ≠ .error e := by
  intro h
  rcases except_bind_eq_error.mp h with h | ⟨a, ok, h⟩
  · exact hx h
  · exact hf a ok h

theorem sized_eq_ok {bits n k : Nat} : sized bits n = .ok k ↔ n < 1 <<< bits ∧ k = n := by
  rw [sized]
  split
  · next fits => simp [fits, eq_comm]
  · next large => simp [large]

theorem sized_eq_error {bits n : Nat} {e : MachineError} (h : sized bits n = .error e) :
    1 <<< bits ≤ n := by
  rw [sized] at h
  split at h
  · cases h
  · next large => exact Nat.le_of_not_lt large

end Except

section Reader

variable {ε σ α β : Type} {x : StateT σ (Except ε) α} {f : α → StateT σ (Except ε) β} {s t : σ}

theorem reader_bind_of_ok {a : α} (h : x s = .ok (a, t)) : (x >>= f) s = f a t := by
  simp only [bind, StateT.bind, h, Except.bind]

theorem reader_bind_of_error {e : ε} (h : x s = .error e) : (x >>= f) s = .error e := by
  simp only [bind, StateT.bind, h, Except.bind]

theorem reader_bind_eq_ok {b : β} :
    (x >>= f) s = .ok (b, t) ↔ ∃ a mid, x s = .ok (a, mid) ∧ f a mid = .ok (b, t) := by
  cases h : x s with
  | ok r =>
    obtain ⟨a, mid⟩ := r
    rw [reader_bind_of_ok h]
    constructor
    · intro run
      exact ⟨a, mid, rfl, run⟩
    · rintro ⟨a, mid, eq, run⟩
      cases eq
      exact run
  | error e =>
    rw [reader_bind_of_error h]
    simp

theorem reader_bind_ne_error {e : ε} (hx : x s ≠ .error e)
    (hf : ∀ a t, x s = .ok (a, t) → f a t ≠ .error e) : (x >>= f) s ≠ .error e := by
  cases h : x s with
  | ok r =>
    rw [reader_bind_of_ok h]
    exact hf r.1 r.2 h
  | error d =>
    rw [reader_bind_of_error h]
    intro eq
    cases eq
    exact hx h

theorem run'_eq_ok {a : α} : x.run' s = .ok a ↔ ∃ t, x s = .ok (a, t) := by
  simp only [StateT.run']
  cases x s with
  | ok r => simp [Functor.map, Except.map, Prod.ext_iff]
  | error e => simp [Functor.map, Except.map]

end Reader

namespace Machine

variable {α β : Type} {f : Machine → Except MachineError α} {m : Machine}

theorem query_of_ok {a : α} (h : f m = .ok a) : query f m = .ok a m := by
  simp only [query, h]

theorem query_of_error {e : MachineError} (h : f m = .error e) : query f m = .error e m := by
  simp only [query, h]

theorem query_eq_ok {a : α} {m' : Machine} : query f m = .ok a m' ↔ f m = .ok a ∧ m' = m := by
  cases h : f m with
  | ok b =>
    rw [query_of_ok h]
    simp [eq_comm]
  | error e =>
    rw [query_of_error h]
    simp

end Machine

namespace Interpreter

variable {H α : Type} {operation : MachineM α} {f : Machine → Except MachineError α}
  {s : Interpreter H}

theorem onMachine_of_ok {a : α} {m : Machine}
    (h : operation s.machine = .ok a m) :
    onMachine operation s = .ok a { s with machine := m } := by
  simp only [onMachine, h]

theorem onMachine_of_error {e : MachineError} {m : Machine}
    (h : operation s.machine = .error e m) :
    onMachine operation s = .error e { s with machine := m } := by
  simp only [onMachine, h]

theorem onMachine_eq_ok {a : α} {t : Interpreter H} :
    onMachine operation s = .ok a t ↔
      ∃ m, operation s.machine = .ok a m ∧ t = { s with machine := m } := by
  cases h : operation s.machine with
  | ok b m =>
    rw [onMachine_of_ok h]
    simp [eq_comm, and_assoc]
  | error e m =>
    rw [onMachine_of_error h]
    simp

theorem onMachine_eq_error {e : MachineError} {t : Interpreter H} :
    onMachine operation s = .error e t ↔
      ∃ m, operation s.machine = .error e m ∧ t = { s with machine := m } := by
  cases h : operation s.machine with
  | ok b m =>
    rw [onMachine_of_ok h]
    simp
  | error d m =>
    rw [onMachine_of_error h]
    simp [eq_comm, and_assoc]

theorem ask_of_ok {a : α} (h : f s.machine = .ok a) : ask f s = .ok a s := by
  rw [ask, onMachine, Machine.query_of_ok h]

theorem ask_of_error {e : MachineError} (h : f s.machine = .error e) : ask f s = .error e s := by
  rw [ask, onMachine, Machine.query_of_error h]

theorem ask_eq_ok {a : α} {t : Interpreter H} :
    ask f s = .ok a t ↔ f s.machine = .ok a ∧ t = s := by
  cases h : f s.machine with
  | ok b =>
    rw [ask_of_ok h]
    simp [eq_comm]
  | error e =>
    rw [ask_of_error h]
    simp

theorem ask_eq_error {e : MachineError} {t : Interpreter H} :
    ask f s = .error e t ↔ f s.machine = .error e ∧ t = s := by
  cases h : f s.machine with
  | ok b =>
    rw [ask_of_ok h]
    simp
  | error d =>
    rw [ask_of_error h]
    simp [eq_comm]

theorem onHost_eq_ok {operation : H → α × H} {a : α} {t : Interpreter H} :
    onHost operation s = .ok a t ↔
      a = (operation s.host).1 ∧ t = { s with host := (operation s.host).2 } := by
  constructor
  · intro told
    cases told
    exact ⟨rfl, rfl⟩
  · rintro ⟨rfl, rfl⟩
    rfl

theorem operand_eq_ok {inst : Instruction} {values : List UInt16} {index : Nat} {value : UInt16}
    {t : Interpreter H} :
    operand inst values index s = .ok value t ↔ values[index]? = some value ∧ t = s := by
  rw [operand]
  cases values[index]? with
  | none =>
    constructor
    · intro given
      cases given
    · rintro ⟨found, -⟩
      cases found
  | some found =>
    constructor
    · intro given
      cases given
      exact ⟨rfl, rfl⟩
    · rintro ⟨eq, rfl⟩
      rw [Option.some.inj eq]
      rfl

end Interpreter

section Keeps

variable {σ α β : Type}

/-- The state of a result has the invariant; a fault arises only in an excused state. -/
def Kept (inv excused : σ → Prop) : EStateM.Result MachineError σ α → Prop
  | .ok _ t => inv t
  | .error e t => inv t ∧ (e = .fault → excused t)

/-- From any state with the invariant, the operation comes to one with it. -/
def Keeps (inv excused : σ → Prop) (x : EStateM MachineError σ α) : Prop :=
  ∀ s, inv s → Kept inv excused (x s)

variable {inv excused : σ → Prop} {x : EStateM MachineError σ α} {f : α → EStateM MachineError σ β}
  {s t : σ}

theorem Kept.state_of_ok {a : α} (h : Kept inv excused (x s)) (run : x s = .ok a t) : inv t := by
  rw [run] at h
  exact h

theorem Kept.state_of_error {e : MachineError} (h : Kept inv excused (x s))
    (run : x s = .error e t) : inv t := by
  rw [run] at h
  exact h.1

theorem Kept.excused_of_fault (h : Kept inv excused (x s)) (run : x s = .error .fault t) :
    excused t := by
  rw [run] at h
  exact h.2 rfl

theorem Kept.imp {inv' : σ → Prop} (h : Kept inv excused (x s)) (imp : ∀ t, inv t → inv' t) :
    Kept inv' excused (x s) := by
  cases run : x s with
  | ok a t => exact imp t (h.state_of_ok run)
  | error e t =>
    rw [run] at h
    exact ⟨imp t h.1, h.2⟩

theorem Kept.bind (hx : Kept inv excused (x s))
    (hf : ∀ a t, x s = .ok a t → inv t → Kept inv excused (f a t)) :
    Kept inv excused ((x >>= f) s) := by
  cases h : x s with
  | ok a t =>
    rw [bind_of_ok h]
    exact hf a t h (hx.state_of_ok h)
  | error e t =>
    rw [h] at hx
    rw [bind_of_error h]
    exact hx

theorem Keeps.pure (a : α) : Keeps inv excused (Pure.pure a : EStateM MachineError σ α) :=
  fun _ h => h

theorem Keeps.bind (hx : Keeps inv excused x) (hf : ∀ a, Keeps inv excused (f a)) :
    Keeps inv excused (x >>= f) :=
  fun s h => (hx s h).bind fun a t _ ht => hf a t ht

theorem Keeps.modify {g : σ → σ} (h : ∀ s, inv s → inv (g s)) :
    Keeps inv excused (modify g : EStateM MachineError σ Unit) :=
  h

/-- Something that is read first may be used with the knowledge where it came from. -/
theorem Keeps.get_bind {g : σ → EStateM MachineError σ α}
    (h : ∀ s, inv s → Kept inv excused (g s s)) : Keeps inv excused (get >>= g) :=
  h

theorem Keeps.throw {e : MachineError} (ne : e ≠ .fault) :
    Keeps inv excused (throw e : EStateM MachineError σ α) :=
  fun _ h => ⟨h, fun eq => absurd eq ne⟩

theorem Keeps.ite {p : Prop} [Decidable p] {y : EStateM MachineError σ α}
    (hx : p → Keeps inv excused x) (hy : ¬ p → Keeps inv excused y) :
    Keeps inv excused (if p then x else y) := by
  split
  · exact hx ‹_›
  · exact hy ‹_›

theorem Keeps.query {inv excused : Machine → Prop} {f : Machine → Except MachineError α}
    (h : ∀ m, inv m → f m = .error .fault → excused m) :
    Keeps inv excused (Machine.query f) := by
  intro m hm
  cases result : f m with
  | ok a =>
    rw [Machine.query_of_ok result]
    exact hm
  | error e =>
    rw [Machine.query_of_error result]
    refine ⟨hm, ?_⟩
    intro eq
    subst eq
    exact h m hm result

/-- What follows a query may use what the query has found. -/
theorem Keeps.query_bind {inv excused : Machine → Prop} {f : Machine → Except MachineError α}
    {g : α → MachineM β} (h : ∀ m, inv m → f m = .error .fault → excused m)
    (hg : ∀ m a, inv m → f m = .ok a → Kept inv excused (g a m)) :
    Keeps inv excused (Machine.query f >>= g) := by
  intro m hm
  refine (Keeps.query h m hm).bind fun a t run _ => ?_
  cases result : f m with
  | ok b =>
    rw [Machine.query_of_ok result] at run
    cases run
    exact hg m a hm result
  | error e =>
    rw [Machine.query_of_error result] at run
    cases run

end Keeps

end ZMachine
