import ZMachine.Interpreter.Run

/-!
# Reachable states

Whoever runs an interpreter makes requests, one after the other, and may go on after one has failed.
Between requests anything may happen to the host. The states that come up are the reachable ones.
-/

namespace ZMachine.Interpreter

/-- What can be asked of an interpreter from outside. -/
inductive Request (H : Type) where
  | step
  | run
  | provideInput (line : String)
  | callRoutine (packed : UInt16) (arguments : List UInt16)
  | restart
  | saveState
  | restoreState (bytes : List UInt8)
  /-- The host changes by itself. -/
  | changeHost (change : H → H)

variable {H : Type}

def Request.perform [Host H] : Request H → Play H Unit
  | step => do
    let _ ← Interpreter.step
  | run => do
    let _ ← Interpreter.run
  | provideInput line => Interpreter.provideInput line
  | callRoutine packed arguments => do
    let _ ← Interpreter.callRoutine packed arguments
  | restart => Interpreter.restart
  | saveState => do
    let _ ← Interpreter.saveState
  | restoreState bytes => Interpreter.restoreState bytes
  | changeHost change => tellHost change

/-- The request has the story execute instructions. -/
def Request.executes : Request H → Bool
  | step | run | callRoutine _ _ => true
  | _ => false

/-- The state in which an operation ends, whether it succeeds or fails. -/
def after {α : Type} (operation : Play H α) (s : Interpreter H) : Interpreter H :=
  match operation s with
  | .ok _ t => t
  | .error _ t => t

/-- What an operation gives, without the state in which it ends. -/
def result {α : Type} (operation : Play H α) (s : Interpreter H) : Except MachineError α :=
  match operation s with
  | .ok a _ => .ok a
  | .error e _ => .error e

theorem eq_ok_of_result {α : Type} {operation : Play H α} {s : Interpreter H} {a : α}
    (h : result operation s = .ok a) : operation s = .ok a (after operation s) := by
  simp only [result, after] at h ⊢
  cases run : operation s with
  | ok b t =>
    rw [run] at h
    cases h
    rfl
  | error e t =>
    rw [run] at h
    cases h

theorem eq_error_of_result {α : Type} {operation : Play H α} {s : Interpreter H} {e : MachineError}
    (h : result operation s = .error e) : operation s = .error e (after operation s) := by
  simp only [result, after] at h ⊢
  cases run : operation s with
  | ok b t =>
    rw [run] at h
    cases h
  | error d t =>
    rw [run] at h
    cases h
    rfl

/-- The states of interpreters that have been loaded with an image. -/
inductive Reachable [Host H] (image : Memory) : Interpreter H → Prop
  | loaded {story : Story} {host : H} {config : InterpreterConfig} {entropy : Entropy}
      {s : Interpreter H} (hstory : Story.load image = .ok story)
      (h : load story host config entropy = .ok s) : Reachable image s
  | after {s : Interpreter H} (h : Reachable image s) (request : Request H) :
      Reachable image (after request.perform s)

end ZMachine.Interpreter
