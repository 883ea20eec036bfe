import ZMachine.Interpreter.Output
import ZMachine.Machine.Routine
import ZMachine.Proofs.Machine.Bounds

/-!
# Operations in the running frame

Most operations of the machine reach nothing of the call stack but the frame of the running routine:
they are made of a few kinds of steps that read or change memory, locals and the evaluation stack,
and whatever they look at is the same whoever the callers are (`InFrame`). What holds of these steps
and passes through sequences holds of all these operations.
-/

namespace ZMachine

namespace Machine

/-- The machine with other callers of the running routine. -/
def withCallers (m : Machine) (callers : List Frame) : Machine :=
  { m with frames := { m.frames with callers } }

@[simp] theorem stack_withCallers (m : Machine) (callers : List Frame) :
    (m.withCallers callers).stack = m.stack := rfl

/-- What is read off the machine does not depend on the callers. -/
def Oblivious {β : Type} (f : Machine → β) : Prop :=
  ∀ m callers, f (m.withCallers callers) = f m

/-- An operation made of steps in the frame of the running routine. -/
inductive InFrame : {α : Type} → MachineM α → Prop
  | pure {α : Type} (a : α) : InFrame (pure a)
  | bind {α β : Type} {x : MachineM α} {f : α → MachineM β} (first : InFrame x)
      (rest : ∀ a, InFrame (f a)) : InFrame (x >>= f)
  | throw {α : Type} (e : MachineError) : InFrame (throw e : MachineM α)
  | query {α : Type} {f : Machine → Except MachineError α} (oblivious : Oblivious f) :
      InFrame (query f)
  | looking {α : Type} {g : Machine → MachineM α} (oblivious : Oblivious g)
      (rest : ∀ m, InFrame (g m)) : InFrame (get >>= g)
  | poke (address : Nat) (value : UInt8) : InFrame (poke address value)
  | writeByte (address : Nat) (value : UInt8) : InFrame (writeByte address value)
  | push (value : UInt16) : InFrame (push value)
  | pop : InFrame pop
  | replaceTop (value : UInt16) : InFrame (replaceTop value)
  | writeLocal (number : Nat) (value : UInt16) : InFrame (writeLocal number value)

theorem InFrame.ite {α : Type} {p : Prop} [Decidable p] {x y : MachineM α} (hx : InFrame x)
    (hy : InFrame y) : InFrame (if p then x else y) := by
  split
  · exact hx
  · exact hy

/-! ### Questions -/

theorem findPropertyFrom_withCallers (m : Machine) (callers : List Frame) (number address : Nat) :
    (m.withCallers callers).findPropertyFrom number address =
      m.findPropertyFrom number address := by
  have at_eq (address : Nat) :
      (m.withCallers callers).propertyAt address = m.propertyAt address := rfl
  fun_induction findPropertyFrom m number address with
  | case1 address ends => rw [findPropertyFrom_eq, at_eq, ends]
  | case2 address p found same =>
    rw [findPropertyFrom_eq, at_eq, found]
    exact if_pos same
  | case3 address p found other less =>
    rw [findPropertyFrom_eq, at_eq, found]
    dsimp only
    rw [if_neg other, if_pos less]
  | case4 address p found other more far =>
    rw [findPropertyFrom_eq, at_eq, found]
    dsimp only
    rw [if_neg other, if_neg more, if_pos far]
  | case5 address p found other more near ih =>
    rw [findPropertyFrom_eq, at_eq, found]
    dsimp only
    rw [if_neg other, if_neg more, if_neg near, ih]

theorem oblivious_findProperty (object property : UInt16) :
    Oblivious (findProperty object property) := by
  intro m callers
  simp only [findProperty, findPropertyFrom_withCallers]
  rfl

theorem oblivious_behindProperty (object property : UInt16) :
    Oblivious (behindProperty object property) := by
  intro m callers
  simp only [behindProperty, oblivious_findProperty object property m callers]
  rfl

theorem oblivious_getProperty (object property : UInt16) :
    Oblivious (getProperty object property) := by
  intro m callers
  simp only [getProperty, oblivious_findProperty object property m callers]
  rfl

theorem oblivious_propertyAddress (object property : UInt16) :
    Oblivious (propertyAddress object property) := by
  intro m callers
  simp only [propertyAddress, oblivious_findProperty object property m callers]

theorem oblivious_nextProperty (object property : UInt16) :
    Oblivious (nextProperty object property) := by
  intro m callers
  simp only [nextProperty, oblivious_behindProperty object property m callers]
  rfl

/-! ### Memory -/

theorem inFrame_writeWord (address : Nat) (value : UInt16) : InFrame (writeWord address value) :=
  .bind (.writeByte _ _) fun _ => .writeByte _ _

theorem inFrame_writeBytes (address : Nat) (values : List UInt8) :
    InFrame (writeBytes address values) := by
  induction values generalizing address with
  | nil => exact .pure ()
  | cons b rest ih => exact .bind (.writeByte address b) fun _ => ih (address + 1)

theorem inFrame_setTranscript (on : Bool) : InFrame (setTranscript on) :=
  .looking (fun _ _ => rfl) fun _ => .bind (.poke _ _) fun _ => .poke _ _

/-! ### Variables -/

theorem inFrame_writeGlobal (number : UInt8) (value : UInt16) :
    InFrame (writeGlobal number value) :=
  .looking (fun _ _ => rfl) fun _ =>
    .ite (.throw _) (.bind (.query fun _ _ => rfl) fun _ => inFrame_writeWord _ _)

theorem inFrame_readVariable (number : UInt8) : InFrame (readVariable number) :=
  .ite .pop (.ite (.query fun _ _ => rfl) (.query fun _ _ => rfl))

theorem inFrame_writeVariable (number : UInt8) (value : UInt16) :
    InFrame (writeVariable number value) :=
  .ite (.push value) (.ite (.writeLocal _ value) (inFrame_writeGlobal number value))

theorem inFrame_writeInPlace (number : UInt8) (value : UInt16) :
    InFrame (writeInPlace number value) :=
  .ite (.replaceTop value) (.ite (.writeLocal _ value) (inFrame_writeGlobal number value))

/-! ### Objects -/

theorem inFrame_link (l : Link) (object : UInt16) : InFrame (query (link l object)) :=
  .query fun _ _ => rfl

theorem inFrame_setLink (l : Link) (object target : UInt16) : InFrame (setLink l object target) :=
  .ite (.pure ()) (.ite (.throw _) (.bind (.query fun _ _ => rfl) fun _ => .writeByte _ _))

theorem inFrame_setAttribute (object index : UInt16) (set : Bool) :
    InFrame (setAttribute object index set) := by
  rw [setAttribute_eq]
  exact .ite (.pure ()) <| .bind (.query fun _ _ => rfl) fun _ => .looking (fun _ _ => rfl) fun _ =>
    .ite (.throw _) (.bind (.query fun _ _ => rfl) fun _ => .poke _ _)

theorem inFrame_unlinkWithin (object next : UInt16) (fuel : Nat) (current : UInt16) :
    InFrame (unlinkWithin object next fuel current) := by
  induction fuel generalizing current with
  | zero => exact .pure ()
  | succ fuel ih =>
    exact .ite (.pure ()) <| .bind (inFrame_link _ _) fun sibling =>
      .ite (inFrame_setLink _ _ _) (ih sibling)

theorem inFrame_unlinkFrom (object next : UInt16) (steps : Nat) (current : UInt16) :
    InFrame (unlinkFrom object next steps current) := by
  rw [unlinkFrom_eq_unlinkWithin]
  exact inFrame_unlinkWithin object next _ current

theorem inFrame_removeObject (object : UInt16) : InFrame (removeObject object) := by
  refine .ite (.pure ()) <| .bind (inFrame_link _ _) fun parent => .ite (.pure ()) ?_
  refine .bind (inFrame_link _ _) fun next => .bind (inFrame_link _ _) fun first => ?_
  have released : InFrame (do setLink .parent object 0; setLink .sibling object 0) :=
    .bind (inFrame_setLink _ _ _) fun _ => inFrame_setLink _ _ _
  apply InFrame.ite
  · exact .bind (inFrame_setLink _ _ _) fun _ => released
  · exact .bind (inFrame_unlinkFrom _ _ _ _) fun _ => released

theorem inFrame_insertObject (object destination : UInt16) :
    InFrame (insertObject object destination) := by
  refine .ite (.pure ()) <| .bind (inFrame_removeObject object) fun _ => .ite (.pure ()) ?_
  refine .bind (inFrame_link _ _) fun first => .bind (inFrame_setLink _ _ _) fun _ => ?_
  exact .bind (inFrame_setLink _ _ _) fun _ => inFrame_setLink _ _ _

theorem inFrame_putProperty (object property value : UInt16) :
    InFrame (putProperty object property value) := by
  refine .ite (.pure ()) <| .bind (.query (oblivious_findProperty _ _)) fun found => ?_
  cases found with
  | none => exact .throw _
  | some p => exact .ite (.writeByte _ _) (.ite (inFrame_writeWord _ _) (.throw _))

/-! ### Text -/

theorem inFrame_writeTable (table count : UInt16) (written : Nat) (text : List Char) :
    InFrame (Interpreter.writeTable table count written text) := by
  induction text generalizing written with
  | nil => exact .pure written
  | cons c rest ih =>
    exact .bind (.writeByte _ _) fun _ => .bind (.query fun _ _ => rfl) fun written => ih written

theorem inFrame_appendToTable (table : UInt16) (text : List Char) :
    InFrame (Interpreter.appendToTable table text) :=
  .bind (.query fun _ _ => rfl) fun _ => .bind (inFrame_writeTable _ _ _ _) fun _ =>
    inFrame_writeWord _ _

theorem inFrame_writeBlocks (address : Nat) (tokens : List Token) :
    InFrame (writeBlocks address tokens) := by
  induction tokens generalizing address with
  | nil => exact .pure ()
  | cons token rest ih =>
    refine .bind ?_ fun _ => ih (address + 4)
    exact .bind (inFrame_writeWord _ _) fun _ => .bind (.writeByte _ _) fun _ => .writeByte _ _

theorem inFrame_storeLine (d : Dictionary) (line : List Char) (text parse : Nat) :
    InFrame (storeLine d line text parse) := by
  refine .looking (fun _ _ => rfl) fun m => .bind (inFrame_writeBytes _ _) fun _ => ?_
  refine .bind (.writeByte _ _) fun _ => .ite (.pure []) ?_
  refine .bind (.query fun _ _ => rfl) fun found => .looking (fun _ _ => rfl) fun m => ?_
  exact .bind (.writeByte _ _) fun _ => .bind (inFrame_writeBlocks _ _) fun _ => .pure _

end Machine

end ZMachine
