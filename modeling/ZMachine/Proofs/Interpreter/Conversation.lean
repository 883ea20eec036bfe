import Mathlib.Data.List.Forall2
import ZMachine.Proofs.Interpreter.Companions

/-!
# Requests and their replies

Whoever makes requests of an interpreter learns what they are replied. Companions whose random
numbers are the same, and whose hosts answer alike and keep the same games, reply the same to the
same requests, however many there are (`Companions.converse`).
-/

namespace ZMachine.Interpreter

/-- What a request gives to whoever makes it. -/
inductive Answer where
  | done
  | outcome (outcome : Outcome)
  | stopped (state : Option RunState)
  | returned (value : Option UInt16)
  | saved (bytes : List UInt8)
  deriving DecidableEq, Repr

section Replies

variable {H : Type} [Host H]

/-- The request with what it gives. -/
def Request.reply : Request H → Play H Answer
  | step => do
    let outcome ← Interpreter.step
    pure (.outcome outcome)
  | run => do
    let state ← Interpreter.run
    pure (.stopped state)
  | callRoutine packed arguments => do
    let value ← Interpreter.callRoutine packed arguments
    pure (.returned value)
  | saveState => do
    let bytes ← Interpreter.saveState
    pure (.saved bytes)
  | request => do
    request.perform
    pure .done

/-- The replies to requests that are made one after the other, and the state in which that ends. -/
def converse : List (Request H) → Interpreter H → List (Except MachineError Answer) × Interpreter H
  | [], s => ([], s)
  | request :: rest, s =>
    let (replies, t) := converse rest (after request.reply s)
    (result request.reply s :: replies, t)

end Replies

variable {H K : Type} {hosts : H → K → Prop}

/-- The same request of interpreters with different hosts. Hosts may change by themselves as long as
they stay related. -/
inductive SameRequest (hosts : H → K → Prop) : Request H → Request K → Prop
  | step : SameRequest hosts .step .step
  | run : SameRequest hosts .run .run
  | provideInput (line : String) : SameRequest hosts (.provideInput line) (.provideInput line)
  | callRoutine (packed : UInt16) (arguments : List UInt16) :
      SameRequest hosts (.callRoutine packed arguments) (.callRoutine packed arguments)
  | restart : SameRequest hosts .restart .restart
  | saveState : SameRequest hosts .saveState .saveState
  | restoreState (bytes : List UInt8) :
      SameRequest hosts (.restoreState bytes) (.restoreState bytes)
  | changeHost {change : H → H} {change' : K → K}
      (related : ∀ host other, hosts host other → hosts (change host) (change' other)) :
      SameRequest hosts (.changeHost change) (.changeHost change')

variable {s : Interpreter H} {t : Interpreter K}

theorem alike_provideInput (line : String) :
    Alike (Companions hosts Eq) (provideInput line) (provideInput line) := by
  intro s t h
  rw [provideInput, provideInput, get_bind, get_bind, ← h.states]
  cases s.state with
  | running | quit => exact .ok h
  | waiting text parse =>
    refine ((alike_storeLine line text parse).bind fun _ => ?_) s t h
    exact Alike.modify fun _ _ h => { h with states := rfl }

theorem alike_saveState : Alike (Companions hosts Eq) saveState saveState := by
  intro s t h
  rw [saveState, saveState, get_bind, get_bind, ← h.states, h.machine_eq]
  exact alike_ask _ s t h

variable [Host H] [Host K]

theorem alike_runRoutine (r : Answering hosts) (k : Keeping hosts) (depth fuel : Nat) :
    Alike (Companions hosts Eq) (runRoutine depth fuel) (runRoutine depth fuel) := by
  induction fuel with
  | zero => exact .pure none
  | succ fuel ih =>
    intro s t h
    refine (h.step r fun inst values _ => k.indifferent inst values).bind
      fun outcome s' t' _ h' => ?_
    have still := h'.companions
    cases outcome with
    | returned value =>
      dsimp only
      rw [get_bind, get_bind, h'.machine_eq]
      split
      · exact .ok still
      · exact ih s' t' still
    | quit => exact .ok still
    | waiting =>
      -- Only here does an error name the place of the instruction, which a step has set.
      exact (alike_refuse _ s' t' h').mono (fun _ _ h => h.companions) fun _ _ h => h.companions
    | _ => exact ih s' t' still

theorem alike_callRoutine (r : Answering hosts) (k : Keeping hosts) (packed : UInt16)
    (arguments : List UInt16) :
    Alike (Companions hosts Eq) (callRoutine packed arguments) (callRoutine packed arguments) := by
  rw [callRoutine, callRoutine]
  split
  · exact .pure _
  · intro s t h
    rw [get_bind, get_bind, h.machine_eq]
    exact ((alike_onMachine _).bind fun _ => alike_runRoutine r k _ _) s t h

/-- Companions reply the same. -/
theorem SameRequest.alike (r : Answering hosts) (k : Keeping hosts) {request : Request H}
    {other : Request K} (same : SameRequest hosts request other) :
    Alike (Companions hosts Eq) request.reply other.reply := by
  have indifferent := k.indifferent
  cases same with
  | step =>
    intro s t h
    refine (h.step r fun inst values _ => indifferent inst values).bind fun outcome _ _ _ h' => ?_
    exact .ok h'.companions
  | run =>
    have running : Alike (Companions hosts Eq) Interpreter.run Interpreter.run :=
      fun s t h => h.run r rfl fun inst values _ => indifferent inst values
    exact running.bind fun _ => .pure _
  | provideInput line => exact (alike_provideInput line).bind fun _ => .pure _
  | callRoutine packed arguments =>
    exact (alike_callRoutine r k packed arguments).bind fun _ => .pure _
  | restart => exact (alike_restart r.toResponsive rfl).bind fun _ => .pure _
  | saveState => exact alike_saveState.bind fun _ => .pure _
  | restoreState bytes =>
    exact (alike_restoreState r.toResponsive (fun _ => trivial) bytes).bind fun _ => .pure _
  | changeHost related =>
    have changing : Alike (Companions hosts Eq) (tellHost _) (tellHost _) :=
      Alike.modify fun _ _ h => { h with hosts := related _ _ h.hosts }
    exact changing.bind fun _ => .pure _

/-- By induction on the requests: each one leaves companions. -/
theorem Companions.converse (r : Answering hosts) (k : Keeping hosts)
    {requests : List (Request H)} {others : List (Request K)}
    (same : List.Forall₂ (SameRequest hosts) requests others) (h : Companions hosts Eq s t) :
    (converse others t).1 = (converse requests s).1 ∧
      Companions hosts Eq (converse requests s).2 (converse others t).2 := by
  induction same generalizing s t with
  | nil => exact ⟨rfl, h⟩
  | @cons request other _ _ first _ ih =>
    obtain ⟨replied, left⟩ := result_eq_of_matched (first.alike r k s t h)
    obtain ⟨replies, final⟩ := ih left
    refine ⟨?_, final⟩
    simp only [Interpreter.converse, replied, replies]

/-- Whatever is requested of the interpreters, the replies are the same and leave the same states,
as long as their hosts answer alike and keep the same games. -/
def Interchangeable (s : Interpreter H) (t : Interpreter K) : Prop :=
  ∀ hosts : H → K → Prop, Answering hosts → Keeping hosts → hosts s.host t.host →
    ∀ requests others, List.Forall₂ (SameRequest hosts) requests others →
      (converse others t).1 = (converse requests s).1 ∧
        Companions hosts Eq (converse requests s).2 (converse others t).2

/-- Nothing that is requested depends on where the last instruction stood. -/
theorem interchangeable_of_companions (h : Companions (fun _ _ => True) Eq s t) :
    Interchangeable s t :=
  fun _ r k related _ _ same => Companions.converse r k same { h with hosts := related }

end ZMachine.Interpreter
