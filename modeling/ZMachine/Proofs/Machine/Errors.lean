import ZMachine.Instruction.Decoding
import ZMachine.Proofs.Machine.Bounds
import ZMachine.Proofs.Machine.InFrame
import ZMachine.Proofs.Machine.Input

/-!
# Errors that stop an instruction

Two errors are about the number of instructions: that the limit on it is reached, and that no further
one can be counted. Nothing that an instruction does fails with one of these; all other errors are
ordinary. `Ordinary` says so of something that is read, `ReadsOrdinarily` of a reader, `Ordinarily`
of an operation, and all pass through sequences.
-/

namespace ZMachine

/-- The error is not about the number of instructions. -/
def MachineError.ordinary : MachineError → Bool
  | .instructionLimit _ | .countFull => false
  | _ => true

/-- Nothing else than an ordinary error comes out. -/
def Ordinary {α : Type} (x : Except MachineError α) : Prop :=
  ∀ e, x = .error e → e.ordinary = true

def EndsOrdinarily {σ α : Type} : EStateM.Result MachineError σ α → Prop
  | .ok _ _ => True
  | .error e _ => e.ordinary = true

/-- The operation fails with ordinary errors only. -/
def Ordinarily {σ α : Type} (x : EStateM MachineError σ α) : Prop :=
  ∀ s, EndsOrdinarily (x s)

namespace Ordinary

variable {α β : Type} {x y : Except MachineError α} {f : α → Except MachineError β}

theorem ok (a : α) : Ordinary (.ok a) := by
  intro e eq
  cases eq

theorem error {e : MachineError} (h : e.ordinary = true) : Ordinary (.error e : Except _ α) := by
  intro e' eq
  cases eq
  exact h

theorem bind (hx : Ordinary x) (hf : ∀ a, Ordinary (f a)) : Ordinary (x >>= f) := by
  intro e eq
  rcases except_bind_eq_error.mp eq with failed | ⟨a, -, failed⟩
  · exact hx e failed
  · exact hf a e failed

theorem ite {p : Prop} [Decidable p] (hx : Ordinary x) (hy : Ordinary y) :
    Ordinary (if p then x else y) := by
  split
  · exact hx
  · exact hy

end Ordinary

namespace Ordinarily

variable {σ α β : Type} {x y : EStateM MachineError σ α} {f : α → EStateM MachineError σ β}

theorem of_error (h : Ordinarily x) {s t : σ} {e : MachineError} (failed : x s = .error e t) :
    e.ordinary = true := by
  have ends := h s
  rw [failed] at ends
  exact ends

theorem pure (a : α) : Ordinarily (Pure.pure a : EStateM MachineError σ α) :=
  fun _ => trivial

theorem bind (hx : Ordinarily x) (hf : ∀ a, Ordinarily (f a)) : Ordinarily (x >>= f) := by
  intro s
  cases run : x s with
  | ok a t =>
    rw [bind_of_ok run]
    exact hf a t
  | error e t =>
    rw [bind_of_error run]
    exact hx.of_error run

theorem get_bind {g : σ → EStateM MachineError σ α} (h : ∀ s, Ordinarily (g s)) :
    Ordinarily (get >>= g) :=
  fun s => h s s

theorem throw {e : MachineError} (h : e.ordinary = true) :
    Ordinarily (throw e : EStateM MachineError σ α) :=
  fun _ => h

theorem modify (g : σ → σ) : Ordinarily (modify g : EStateM MachineError σ Unit) :=
  fun _ => trivial

theorem ite {p : Prop} [Decidable p] (hx : Ordinarily x) (hy : Ordinarily y) :
    Ordinarily (if p then x else y) := by
  split
  · exact hx
  · exact hy

theorem query {f : Machine → Except MachineError α} (h : ∀ m, Ordinary (f m)) :
    Ordinarily (Machine.query f) := by
  intro m
  cases found : f m with
  | ok a =>
    rw [Machine.query_of_ok found]
    trivial
  | error e =>
    rw [Machine.query_of_error found]
    exact h m e found

end Ordinarily

/-- The reader fails with ordinary errors only. -/
def ReadsOrdinarily {σ α : Type} (x : StateT σ (Except MachineError) α) : Prop :=
  ∀ s, Ordinary (x s)

namespace ReadsOrdinarily

variable {σ α β : Type} {x : StateT σ (Except MachineError) α}
  {f : α → StateT σ (Except MachineError) β}

theorem pure (a : α) : ReadsOrdinarily (Pure.pure a : StateT σ (Except MachineError) α) :=
  fun _ => .ok _

theorem bind (hx : ReadsOrdinarily x) (hf : ∀ a, ReadsOrdinarily (f a)) :
    ReadsOrdinarily (x >>= f) :=
  fun s => Ordinary.bind (hx s) fun (a, t) => hf a t

theorem throw {e : MachineError} (h : e.ordinary = true) :
    ReadsOrdinarily (throw e : StateT σ (Except MachineError) α) :=
  fun _ => .error h

theorem lift {a : Except MachineError α} (h : Ordinary a) :
    ReadsOrdinarily (liftM a : StateT σ (Except MachineError) α) :=
  fun _ => .bind h fun _ => .ok _

end ReadsOrdinarily

theorem ordinary_sized (bits n : Nat) : Ordinary (sized bits n) :=
  .ite (.ok n) (.error rfl)

theorem ordinary_subtract (a b : Nat) : Ordinary (subtract a b) :=
  .ite (.ok _) (.error rfl)

namespace Memory

variable (memory : Memory)

theorem ordinary_bytesIn (start stop : Nat) : Ordinary (memory.bytesIn start stop) :=
  .ite (.ok _) (.error rfl)

end Memory

/-! ### Text -/

namespace ZString

variable {abbreviations : Abbreviations} {memory : Memory}

theorem ordinary_decodeFrom (refusal : Ordinary abbreviations)
    (expansions : ∀ expansion, abbreviations = .ok expansion → ∀ n, Ordinary (expansion n))
    (shift : Shift) (read : List Char) (zs : List ZChar) :
    Ordinary (decodeFrom abbreviations shift read zs) := by
  fun_induction decodeFrom abbreviations shift read zs with
  | case1 => exact .ok _
  | case2 _ _ _ _ _ ih => exact ih
  | case3 _ _ _ _ _ _ e none => exact .error (refusal e none)
  | case4 => exact .ok _
  | case5 _ _ _ _ _ expansion _ _ some e failed =>
    exact .error (expansions expansion some _ e failed)
  | case6 _ _ _ _ _ _ _ _ _ _ _ ih => exact ih
  | case7 _ _ _ _ _ ih => exact ih
  | case8 _ _ _ _ _ _ ih => exact ih
  | case9 _ _ _ _ _ _ _ _ _ _ _ ih => exact ih
  | case10 => exact .ok _
  | case11 _ _ _ _ _ _ _ _ _ ih => exact ih

theorem ordinary_expand (memory : Memory) (table address number : Nat) :
    Ordinary (expand memory table address number) := by
  simp only [expand_eq, decodeWith_eq]
  refine .ite (.error rfl) (.bind (.bind ?_ fun _ => .ok _) fun _ => .ok _)
  exact ordinary_decodeFrom (.error rfl) nofun _ _ _

theorem ordinary_decode (memory : Memory) (address table : Nat) :
    Ordinary (decode memory address table) := by
  rw [decode, decodeWith_eq]
  refine .bind (ordinary_decodeFrom (.ok _) (fun expansion eq number => ?_) _ _ _) fun _ => .ok _
  cases eq
  exact ordinary_expand memory table address number

theorem ordinary_decodePacked (memory : Memory) (packed : UInt16) (table : Nat) :
    Ordinary (decodePacked memory packed table) :=
  .bind (ordinary_decode _ _ _) fun _ => .ok _

end ZString

/-! ### The dictionary -/

namespace Dictionary

theorem ordinary_rankAt (memory : Memory) (address : Nat) :
    Ordinary (rankAt memory address) :=
  .bind (memory.ordinary_bytesIn _ _) fun _ => .ok _

theorem ordinary_search (d : Dictionary) (memory : Memory) (key low high : Nat) :
    Ordinary (d.search memory key low high) := by
  fun_induction search d memory key low high with
  | case1 _ _ _ _ e failed => exact .error (ordinary_rankAt _ _ e failed)
  | case2 _ _ _ _ _ _ _ ih => exact ih
  | case3 _ _ _ _ _ _ _ _ ih => exact ih
  | case4 => exact .ok _
  | case5 => exact .ok _

theorem ordinary_lookup (d : Dictionary) (memory : Memory) (word : List Char) :
    Ordinary (d.lookup memory word) := by
  rw [lookup_eq]
  split
  · next e failed => exact .error (ordinary_search d memory _ _ _ e failed)
  · exact .ok _
  · exact .ok _

theorem ordinary_tokenize (d : Dictionary) (memory : Memory) (line : List UInt8) :
    Ordinary (d.tokenize memory line) := by
  rw [tokenize_eq]
  generalize wordsFrom d.separators 0 [] line = words
  induction words with
  | nil => exact .ok _
  | cons word rest ih =>
    refine .bind (.bind (ordinary_lookup d memory _) fun _ => .ok _) fun _ => ?_
    exact .bind ih fun _ => .ok _

end Dictionary

/-! ### Instructions -/

namespace Instruction

variable {α β : Type} {memory : Memory} {start table : Nat}

theorem ordinarily_nextByte (part : InstructionPart) :
    ReadsOrdinarily (nextByte memory start part) := by
  intro address
  rw [nextByte]
  split
  · exact .ok _
  · exact .error rfl

theorem ordinarily_readTypes (opcode : UInt8) (form : InstructionForm) :
    ReadsOrdinarily (readTypes memory start opcode form) := by
  cases form with
  | long => exact .pure _
  | short => exact .pure _
  | var => exact (ordinarily_nextByte _).bind fun _ => .pure _

theorem ordinarily_readOperands (types : List OperandType) :
    ReadsOrdinarily (readOperands memory start types) := by
  induction types with
  | nil => exact .pure _
  | cons type rest ih =>
    cases type with
    | largeConstant =>
      refine (ordinarily_nextByte _).bind fun _ => (ordinarily_nextByte _).bind fun _ => ?_
      exact ih.bind fun _ => .pure _
    | smallConstant => exact (ordinarily_nextByte _).bind fun _ => ih.bind fun _ => .pure _
    | var => exact (ordinarily_nextByte _).bind fun _ => ih.bind fun _ => .pure _
    | omitted => exact ih

theorem ordinarily_readStore (op : Opcode) : ReadsOrdinarily (readStore memory start op) := by
  rw [readStore]
  split
  · exact (ordinarily_nextByte _).bind fun _ => .pure _
  · exact .pure _

theorem ordinarily_readBranch (op : Opcode) : ReadsOrdinarily (readBranch memory start op) := by
  rw [readBranch]
  split
  · refine (ordinarily_nextByte _).bind fun _ => ?_
    dsimp only
    split
    · exact .pure _
    · exact (ordinarily_nextByte _).bind fun _ => .pure _
  · exact .pure _

theorem ordinarily_readText (op : Opcode) : ReadsOrdinarily (readText memory table op) := by
  rw [readText]
  split
  · exact fun address => .bind (ZString.ordinary_decode _ _ _) fun _ => .ok _
  · exact .pure _

theorem ordinary_decode (memory : Memory) (address table : Nat) :
    Ordinary (decode memory address table) := by
  have reads : ReadsOrdinarily (read memory address table) := by
    refine (ordinarily_nextByte _).bind fun opcodeByte => ?_
    split
    · exact (ordinarily_nextByte _).bind fun _ => .throw rfl
    · dsimp only
      split
      · exact .throw rfl
      · refine (ordinarily_readTypes _ _).bind fun _ => (ordinarily_readOperands _).bind fun _ => ?_
        refine (ordinarily_readStore _).bind fun _ => (ordinarily_readBranch _).bind fun _ => ?_
        refine (ordinarily_readText _).bind fun _ => ?_
        have here : ReadsOrdinarily (get : Reader Nat) := fun _ => .ok _
        exact here.bind fun next => (ReadsOrdinarily.lift (ordinary_subtract _ _)).bind fun _ =>
          .pure _
  exact Ordinary.bind (reads address) fun _ => .ok _

end Instruction

namespace Machine

/-! ### What is read off the machine -/

variable (m : Machine)

theorem ordinary_wordAt (address : Nat) : Ordinary (m.wordAt address) :=
  .ite (.ok _) (.error rfl)

theorem ordinary_peek : Ordinary m.peek := by
  rw [peek]
  split
  · exact .error rfl
  · exact .ok _

theorem ordinary_readLocal (number : Nat) : Ordinary (m.readLocal number) :=
  .ite (.error rfl) (.ok _)

theorem ordinary_readGlobal (number : UInt8) : Ordinary (m.readGlobal number) := by
  rw [readGlobal_eq]
  exact .ite (.error rfl) (m.ordinary_wordAt _)

theorem ordinary_readInPlace (number : UInt8) : Ordinary (m.readInPlace number) :=
  .ite m.ordinary_peek (.ite (m.ordinary_readLocal _) (m.ordinary_readGlobal _))

theorem ordinary_inspect (address : Nat) : Ordinary (m.inspect address) :=
  .ite (.ok _) (.error rfl)

theorem ordinary_objectAddress (object : UInt16) : Ordinary (m.objectAddress object) := by
  rw [objectAddress_eq]
  exact .ite (.error rfl) (.ok _)

theorem ordinary_link (l : Link) (object : UInt16) : Ordinary (m.link l object) :=
  .ite (.ok _) (.bind (m.ordinary_objectAddress object) fun _ => .ok _)

theorem ordinary_hasAttribute (object index : UInt16) :
    Ordinary (m.hasAttribute object index) := by
  rw [hasAttribute_eq]
  exact .ite (.ok _) <| .bind (m.ordinary_objectAddress object) fun _ =>
    .bind (m.ordinary_inspect _) fun _ => .ok _

theorem ordinary_propertyTable (entry : Nat) : Ordinary (m.propertyTable entry) :=
  .bind (m.ordinary_wordAt _) fun _ => .ok _

theorem ordinary_objectName (object : UInt16) : Ordinary (m.objectName object) := by
  refine .ite (.ok _) (.bind (m.ordinary_objectAddress object) fun _ => ?_)
  refine .bind (m.ordinary_propertyTable _) fun _ => .ite (.ok _) ?_
  exact .bind (ZString.ordinary_decode _ _ _) fun _ => .ok _

theorem ordinary_firstProperty (object : UInt16) : Ordinary (m.firstProperty object) :=
  .bind (m.ordinary_objectAddress object) fun _ => .bind (m.ordinary_propertyTable _) fun _ => .ok _

theorem ordinary_findPropertyFrom (number address : Nat) :
    Ordinary (m.findPropertyFrom number address) := by
  fun_induction findPropertyFrom m number address with
  | case1 => exact .ok _
  | case2 => exact .ok _
  | case3 => exact .ok _
  | case4 => exact .error rfl
  | case5 _ _ _ _ _ _ ih => exact ih

theorem ordinary_findProperty (object property : UInt16) :
    Ordinary (m.findProperty object property) :=
  .bind (m.ordinary_firstProperty object) fun _ => m.ordinary_findPropertyFrom _ _

theorem ordinary_defaultProperty (number : Nat) : Ordinary (m.defaultProperty number) := by
  rw [defaultProperty_eq]
  exact .ite (.ok _) (m.ordinary_wordAt _)

theorem ordinary_getProperty (object property : UInt16) :
    Ordinary (m.getProperty object property) := by
  refine .ite (.ok _) (.bind (m.ordinary_findProperty _ _) fun found => ?_)
  cases found with
  | none => exact m.ordinary_defaultProperty _
  | some p => exact .ite (.ok _) (m.ordinary_wordAt _)

theorem ordinary_propertyAddress (object property : UInt16) :
    Ordinary (m.propertyAddress object property) := by
  refine .ite (.ok _) (.bind (m.ordinary_findProperty _ _) fun found => ?_)
  cases found <;> exact .ok _

theorem ordinary_behindProperty (object property : UInt16) :
    Ordinary (m.behindProperty object property) := by
  refine .ite (m.ordinary_firstProperty object) ?_
  refine .bind (m.ordinary_findProperty _ _) fun found => ?_
  cases found with
  | none => exact .error rfl
  | some p => exact .ok _

theorem ordinary_nextProperty (object property : UInt16) :
    Ordinary (m.nextProperty object property) := by
  refine .ite (.ok _) (.bind (m.ordinary_behindProperty _ _) fun address => ?_)
  split <;> exact .ok _

theorem ordinary_routineAddress (packed : UInt16) : Ordinary (m.routineAddress packed) :=
  .ite (.error rfl) (.ok _)

/-! ### What is done to the machine -/

theorem ordinarily_poke (address : Nat) (value : UInt8) : Ordinarily (poke address value) := by
  intro m
  rw [poke]
  split
  · trivial
  · rfl

theorem ordinarily_writeByte (address : Nat) (value : UInt8) :
    Ordinarily (writeByte address value) := by
  intro m
  rw [writeByte]
  split
  · rfl
  · split
    · rfl
    · exact ordinarily_poke address value m

theorem ordinarily_writeWord (address : Nat) (value : UInt16) :
    Ordinarily (writeWord address value) :=
  .bind (ordinarily_writeByte _ _) fun _ => ordinarily_writeByte _ _

theorem ordinarily_writeBytes (address : Nat) (values : List UInt8) :
    Ordinarily (writeBytes address values) := by
  induction values generalizing address with
  | nil => exact .pure ()
  | cons b rest ih => exact .bind (ordinarily_writeByte _ _) fun _ => ih _

theorem ordinarily_setFlags2 (value : UInt16) : Ordinarily (setFlags2 value) :=
  .bind (ordinarily_poke _ _) fun _ => ordinarily_poke _ _

theorem ordinarily_setTranscript (on : Bool) : Ordinarily (setTranscript on) :=
  .get_bind fun _ => ordinarily_setFlags2 _

theorem ordinarily_restart : Ordinarily restart :=
  .get_bind fun _ => .bind (.modify _) fun _ => .get_bind fun _ => ordinarily_setFlags2 _

theorem ordinarily_push (value : UInt16) : Ordinarily (push value) := by
  intro m
  rw [push]
  split
  · rfl
  · trivial

theorem ordinarily_pop : Ordinarily pop := by
  intro m
  rw [pop]
  split
  · rfl
  · trivial

theorem ordinarily_replaceTop (value : UInt16) : Ordinarily (replaceTop value) := by
  intro m
  rw [replaceTop]
  split
  · rfl
  · trivial

theorem ordinarily_writeLocal (number : Nat) (value : UInt16) :
    Ordinarily (writeLocal number value) := by
  intro m
  rw [writeLocal]
  split
  · rfl
  · trivial

theorem ordinarily_writeGlobal (number : UInt8) (value : UInt16) :
    Ordinarily (writeGlobal number value) := by
  rw [writeGlobal_eq]
  exact .get_bind fun _ => .ite (.throw rfl) (ordinarily_writeWord _ _)

theorem ordinarily_readVariable (number : UInt8) : Ordinarily (readVariable number) :=
  .ite ordinarily_pop <|
    .ite (.query fun m => m.ordinary_readLocal _) (.query fun m => m.ordinary_readGlobal _)

theorem ordinarily_writeVariable (number : UInt8) (value : UInt16) :
    Ordinarily (writeVariable number value) :=
  .ite (ordinarily_push _) (.ite (ordinarily_writeLocal _ _) (ordinarily_writeGlobal _ _))

theorem ordinarily_writeInPlace (number : UInt8) (value : UInt16) :
    Ordinarily (writeInPlace number value) :=
  .ite (ordinarily_replaceTop _) (.ite (ordinarily_writeLocal _ _) (ordinarily_writeGlobal _ _))

theorem ordinarily_readLink (l : Link) (object : UInt16) : Ordinarily (query (link l object)) :=
  .query fun m => m.ordinary_link l object

theorem ordinarily_setLink (l : Link) (object target : UInt16) :
    Ordinarily (setLink l object target) :=
  .ite (.pure ()) <| .ite (.throw rfl) <|
    .bind (.query fun m => m.ordinary_objectAddress _) fun _ => ordinarily_writeByte _ _

theorem ordinarily_setAttribute (object index : UInt16) (set : Bool) :
    Ordinarily (setAttribute object index set) := by
  rw [setAttribute_eq]
  exact .ite (.pure ()) <| .bind (.query fun m => m.ordinary_objectAddress _) fun _ =>
    .get_bind fun _ => .ite (.throw rfl) <|
      .bind (.query fun m => m.ordinary_inspect _) fun _ => ordinarily_poke _ _

theorem ordinarily_unlinkFrom (object next : UInt16) (steps : Nat) (current : UInt16) :
    Ordinarily (unlinkFrom object next steps current) := by
  rw [unlinkFrom_eq_unlinkWithin]
  generalize objectLimit + 1 - steps = fuel
  induction fuel generalizing current with
  | zero => exact .pure ()
  | succ fuel ih =>
    exact .ite (.pure ()) <| .bind (ordinarily_readLink _ _) fun sibling =>
      .ite (ordinarily_setLink _ _ _) (ih sibling)

theorem ordinarily_removeObject (object : UInt16) : Ordinarily (removeObject object) := by
  refine .ite (.pure ()) <| .bind (ordinarily_readLink _ _) fun parent => .ite (.pure ()) ?_
  refine .bind (ordinarily_readLink _ _) fun next => .bind (ordinarily_readLink _ _) fun first => ?_
  have released : Ordinarily (do setLink .parent object 0; setLink .sibling object 0) :=
    .bind (ordinarily_setLink _ _ _) fun _ => ordinarily_setLink _ _ _
  apply Ordinarily.ite
  · exact .bind (ordinarily_setLink _ _ _) fun _ => released
  · exact .bind (ordinarily_unlinkFrom _ _ _ _) fun _ => released

theorem ordinarily_insertObject (object destination : UInt16) :
    Ordinarily (insertObject object destination) := by
  refine .ite (.pure ()) <| .bind (ordinarily_removeObject object) fun _ => .ite (.pure ()) ?_
  refine .bind (ordinarily_readLink _ _) fun _ => .bind (ordinarily_setLink _ _ _) fun _ => ?_
  exact .bind (ordinarily_setLink _ _ _) fun _ => ordinarily_setLink _ _ _

theorem ordinarily_putProperty (object property value : UInt16) :
    Ordinarily (putProperty object property value) := by
  refine .ite (.pure ()) <| .bind (.query fun m => m.ordinary_findProperty _ _) fun found => ?_
  cases found with
  | none => exact .throw rfl
  | some p => exact .ite (ordinarily_writeByte _ _) (.ite (ordinarily_writeWord _ _) (.throw rfl))

theorem ordinarily_callPacked (packed : UInt16) (arguments : List UInt16) (store : Option UInt8) :
    Ordinarily (callPacked packed arguments store) := by
  refine .bind (.query fun m => m.ordinary_routineAddress packed) fun routine => ?_
  intro m
  simp only [enter]
  split
  · rfl
  · split
    · rfl
    · split
      · rfl
      · trivial

theorem ordinarily_giveBack (value : UInt16) : Ordinarily (giveBack value) := by
  have leaving : Ordinarily leave := by
    intro m
    rw [leave]
    split
    · rfl
    · trivial
  refine .bind leaving fun frame => ?_
  split
  · exact ordinarily_writeVariable _ _
  · exact .pure ()

theorem ordinarily_appendToTable (table : UInt16) (text : List Char) :
    Ordinarily (Interpreter.appendToTable table text) := by
  have writing (count : UInt16) (written : Nat) :
      Ordinarily (Interpreter.writeTable table count written text) := by
    induction text generalizing written with
    | nil => exact .pure _
    | cons c rest ih =>
      exact .bind (ordinarily_writeByte _ _) fun _ =>
        .bind (.query fun _ => ordinary_sized _ _) fun written => ih written
  exact .bind (.query fun m => m.ordinary_wordAt _) fun count =>
    .bind (writing count 0) fun _ => ordinarily_writeWord _ _

theorem ordinarily_storeLine (d : Dictionary) (line : List Char) (text parse : Nat) :
    Ordinarily (storeLine d line text parse) := by
  have writing (address : Nat) (tokens : List Token) : Ordinarily (writeBlocks address tokens) := by
    induction tokens generalizing address with
    | nil => exact .pure ()
    | cons token rest ih =>
      refine .bind ?_ fun _ => ih _
      exact .bind (ordinarily_writeWord _ _) fun _ =>
        .bind (ordinarily_writeByte _ _) fun _ => ordinarily_writeByte _ _
  refine .get_bind fun _ => .bind (ordinarily_writeBytes _ _) fun _ => ?_
  refine .bind (ordinarily_writeByte _ _) fun _ => .ite (.pure []) ?_
  refine .bind (.query fun m => d.ordinary_tokenize m.memory _) fun _ => .get_bind fun _ => ?_
  exact .bind (ordinarily_writeByte _ _) fun _ => .bind (writing _ _) fun _ => .pure _

end Machine

end ZMachine
