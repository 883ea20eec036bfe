import ZMachine.Interpreter.Execution
import ZMachine.Proofs.Machine.Bounds
import ZMachine.Proofs.Machine.Routine

/-!
# What instructions are made of

Every instruction but `save`, `restore` and `restart` is a sequence of a few kinds of parts: it
asks the machine a `Question`, makes a `Change` to it, sends the host a `Notice`, reads a line,
selects an output stream, draws a random number, or fails. `Composed` says so of a program, and
`Composed.executeWith` of the instructions; what holds of all the parts and passes through sequences
holds of all these instructions.

Most instructions neither read a line nor draw a number. They are the same program for any two kinds
of hosts, which stays in the running routine (`Works`) until it comes to its one way of ending
(`Ending`): it goes on or quits, jumps, calls, or returns.
-/

namespace ZMachine.Interpreter

/-- What instructions read off the machine. What they do not read through an operation of the
machine is a function of memory and story. -/
inductive Question : {α : Type} → (Machine → Except MachineError α) → Prop
  | readInPlace (number : UInt8) : Question (Machine.readInPlace number)
  | link (l : Link) (object : UInt16) : Question (Machine.link l object)
  | hasAttribute (object index : UInt16) : Question (Machine.hasAttribute object index)
  | getProperty (object property : UInt16) : Question (Machine.getProperty object property)
  | propertyAddress (object property : UInt16) : Question (Machine.propertyAddress object property)
  | nextProperty (object property : UInt16) : Question (Machine.nextProperty object property)
  | objectName (object : UInt16) : Question (Machine.objectName object)
  | statusLine : Question statusLine
  | wordAt (address : UInt16) : Question (Machine.wordAt address.toNat)
  | textAt (address : UInt16) : Question (textAt address)
  | textAtPacked (packed : UInt16) : Question (textAtPacked packed)
  | looking {α : Type} (g : Memory → Story → α) : Question fun m => .ok (g m.memory m.story)

/-- No instruction asks for what belongs to the callers of the running routine. -/
theorem Question.oblivious {α : Type} {f : Machine → Except MachineError α} (q : Question f) :
    Machine.Oblivious f := by
  cases q with
  | getProperty object property => exact Machine.oblivious_getProperty object property
  | propertyAddress object property => exact Machine.oblivious_propertyAddress object property
  | nextProperty object property => exact Machine.oblivious_nextProperty object property
  | _ => exact fun _ _ => rfl

/-- What instructions do to the machine. -/
inductive Change : {α : Type} → MachineM α → Prop
  | readVariable (number : UInt8) : Change (Machine.readVariable number)
  | writeVariable (number : UInt8) (value : UInt16) : Change (Machine.writeVariable number value)
  | writeInPlace (number : UInt8) (value : UInt16) : Change (Machine.writeInPlace number value)
  | push (value : UInt16) : Change (Machine.push value)
  | pop : Change Machine.pop
  | setAttribute (object index : UInt16) (set : Bool) :
    Change (Machine.setAttribute object index set)
  | insertObject (object destination : UInt16) : Change (Machine.insertObject object destination)
  | removeObject (object : UInt16) : Change (Machine.removeObject object)
  | putProperty (object property value : UInt16) :
    Change (Machine.putProperty object property value)
  | writeByte (address : Nat) (near : address ≤ 0x10000) (value : UInt8) :
      Change (Machine.writeByte address value)
  | appendToTable (table : UInt16) (text : List Char) : Change (appendToTable table text)
  | callPacked (packed : UInt16) (arguments : List UInt16) (store : Option UInt8) :
      Change (Machine.callPacked packed arguments store)
  | giveBack (value : UInt16) : Change (Machine.giveBack value)
  | jump (offset : Int) : Change (Machine.jump offset)

/-- Every change works in the running frame, calls, returns or jumps. -/
theorem Change.elim {P : {α : Type} → MachineM α → Prop}
    (inFrame : ∀ {α : Type} {operation : MachineM α}, Machine.InFrame operation → P operation)
    (callPacked : ∀ packed arguments store, P (Machine.callPacked packed arguments store))
    (giveBack : ∀ value, P (Machine.giveBack value)) (jump : ∀ offset, P (Machine.jump offset))
    {α : Type} {operation : MachineM α} (c : Change operation) : P operation := by
  cases c with
  | readVariable number => exact inFrame (Machine.inFrame_readVariable number)
  | writeVariable number value => exact inFrame (Machine.inFrame_writeVariable number value)
  | writeInPlace number value => exact inFrame (Machine.inFrame_writeInPlace number value)
  | push value => exact inFrame (.push value)
  | pop => exact inFrame .pop
  | setAttribute object index set => exact inFrame (Machine.inFrame_setAttribute object index set)
  | insertObject object destination =>
    exact inFrame (Machine.inFrame_insertObject object destination)
  | removeObject object => exact inFrame (Machine.inFrame_removeObject object)
  | putProperty object property value =>
    exact inFrame (Machine.inFrame_putProperty object property value)
  | writeByte address _ value => exact inFrame (.writeByte address value)
  | appendToTable table text => exact inFrame (Machine.inFrame_appendToTable table text)
  | callPacked packed arguments store => exact callPacked packed arguments store
  | giveBack value => exact giveBack value
  | jump offset => exact jump offset

/-- What instructions tell the host. -/
inductive Notice where
  | print (text : String) (transcript : Bool)
  | updateStatus (name : String) (status : Status)
  | setFixedPitch (on : Bool)
  | splitWindow (lines : UInt16)
  | selectWindow (window : UInt16)

/-- The host once it has been told. -/
def Notice.send {H : Type} [Host H] (host : H) : Notice → H
  | print text transcript => Host.print host text transcript
  | updateStatus name status => Host.updateStatus host name status
  | setFixedPitch on => Host.setFixedPitch host on
  | splitWindow lines => Host.splitWindow host lines
  | selectWindow window => Host.selectWindow host window

variable {H K : Type} [Host H] [Host K]

/-- A program made of these parts. -/
inductive Composed : {α : Type} → Play H α → Prop
  | pure {α : Type} (a : α) : Composed (pure a)
  | bind {α β : Type} {x : Play H α} {f : α → Play H β} (hx : Composed x)
      (hf : ∀ a, Composed (f a)) : Composed (x >>= f)
  | refuse {α : Type} (why : DecodeFault) : Composed (refuse why : Play H α)
  | failDivision : Composed failDivision
  | ask {α : Type} {f : Machine → Except MachineError α} (q : Question f) : Composed (ask f)
  | change {α : Type} {operation : MachineM α} (c : Change operation) :
      Composed (onMachine operation)
  | tell (notice : Notice) : Composed (tellHost fun host => notice.send host)
  | readLine (length : Nat) : Composed (onHost fun host => Host.read host length)
  | selected : Composed selected
  | selectStream (stream : Int) (table : Option UInt16) : Composed (selectStream stream table)
  | roll (range : Int) : Composed (roll range)
  | await (text parse : UInt16) : Composed (await text parse)
  | storeLine (line : String) (text parse : UInt16) : Composed (storeLine line text parse)

/-- The instructions that replace the machine or give it to the host as a whole. -/
def wholesale : Opcode → Bool
  | .save | .restore | .restart => true
  | _ => false

/-- A program for two kinds of hosts that stays in the running routine. -/
inductive Works : {α : Type} → Play H α → Play K α → Prop
  | pure {α : Type} (a : α) : Works (pure a) (pure a)
  | bind {α β : Type} {x : Play H α} {y : Play K α} {f : α → Play H β} {g : α → Play K β}
      (first : Works x y) (rest : ∀ a, Works (f a) (g a)) : Works (x >>= f) (y >>= g)
  | refuse {α : Type} (why : DecodeFault) :
      Works (refuse why : Play H α) (refuse why : Play K α)
  | ask {α : Type} {f : Machine → Except MachineError α} (q : Question f) : Works (ask f) (ask f)
  | change {α : Type} {operation : MachineM α} (c : Change operation)
      (stays : Machine.Stays operation) : Works (onMachine operation) (onMachine operation)
  | tell (notice : Notice) :
      Works (tellHost fun host => notice.send host) (tellHost fun host => notice.send host)
  | selected : Works selected selected
  | selectStream (stream : Int) (table : Option UInt16) :
      Works (selectStream stream table) (selectStream stream table)

/-- The offset is one by which the instruction can jump: that of its branch, or any if it is a jump
to where its operand says. -/
def Steers (inst : Instruction) (offset : Int) : Prop :=
  (∃ branch, inst.branch = some branch ∧ branch.offset = offset) ∨ inst.opcode = .jump

/-- An instruction for two kinds of hosts that works in the running routine before it ends. -/
inductive Ending (inst : Instruction) : Play H Outcome → Play K Outcome → Prop
  | bind {α : Type} {x : Play H α} {y : Play K α} {f : α → Play H Outcome}
      {g : α → Play K Outcome} (first : Works x y) (rest : ∀ a, Ending inst (f a) (g a)) :
      Ending inst (x >>= f) (y >>= g)
  | goOn : Ending inst (pure .continued) (pure .continued)
  | quit : Ending inst (pure .quit) (pure .quit)
  | failDivision : Ending inst failDivision failDivision
  | jumpBy (offset : Int) (steers : Steers inst offset) :
      Ending inst (jumpBy offset) (jumpBy offset)
  | returnValue (value : UInt16) : Ending inst (returnValue value) (returnValue value)
  | callPacked (isCall : inst.opcode = .call) (packed : UInt16) (arguments : List UInt16) :
      Ending inst
        (do onMachine (Machine.callPacked packed arguments inst.store); pure .called)
        (do onMachine (Machine.callPacked packed arguments inst.store); pure .called)

/-- The instructions that depend on lines, random numbers or saved games, or that start afresh. -/
def outward : Opcode → Bool
  | .sread | .random => true
  | opcode => wholesale opcode

theorem eq_of_outward {opcode : Opcode} (h : outward opcode = true) :
    opcode = .sread ∨ opcode = .random ∨ wholesale opcode = true := by
  cases opcode with
  | sread => exact Or.inl rfl
  | random => exact Or.inr (Or.inl rfl)
  | _ => exact Or.inr (Or.inr h)

theorem eq_of_wholesale {opcode : Opcode} (h : wholesale opcode = true) :
    opcode = .save ∨ opcode = .restore ∨ opcode = .restart := by
  cases opcode with
  | save => exact Or.inl rfl
  | restore => exact Or.inr (Or.inl rfl)
  | restart => exact Or.inr (Or.inr rfl)
  | _ => cases h

variable {inst : Instruction} {values : List UInt16}

/-- There are further operands, maybe none, wherever there is a first one. -/
theorem furtherOperands_cons {H : Type} (first : UInt16) (others : List UInt16) :
    furtherOperands (first :: others) = (pure others : Play H (List UInt16)) := by
  rw [furtherOperands, List.length_cons, stretch_cons]
  rfl

namespace Works

theorem readVariable (number : UInt8) :
    Works (onMachine (Machine.readVariable number) : Play H UInt16)
      (onMachine (Machine.readVariable number) : Play K UInt16) :=
  change (.readVariable number) (Machine.inFrame_readVariable number).stays

theorem writeInPlace (number : UInt8) (value : UInt16) :
    Works (onMachine (Machine.writeInPlace number value) : Play H Unit)
      (onMachine (Machine.writeInPlace number value) : Play K Unit) :=
  change (.writeInPlace number value) (Machine.inFrame_writeInPlace number value).stays

theorem pop :
    Works (onMachine Machine.pop : Play H UInt16) (onMachine Machine.pop : Play K UInt16) :=
  change .pop Machine.InFrame.pop.stays

theorem resolve (o : Operand) : Works (resolve o : Play H UInt16) (resolve o : Play K UInt16) := by
  cases o with
  | large value => exact pure value
  | small value => exact pure _
  | var number => exact readVariable number

theorem resolveAll (operands : List Operand) :
    Works (resolveAll operands : Play H (List UInt16))
      (resolveAll operands : Play K (List UInt16)) := by
  induction operands with
  | nil => exact pure []
  | cons first rest ih =>
    exact bind (resolve first) fun value => bind ih fun values => pure _

theorem operand (index : Nat) :
    Works (operand inst values index : Play H UInt16)
      (operand inst values index : Play K UInt16) := by
  simp only [Interpreter.operand]
  split
  · exact pure _
  · exact refuse _

theorem storeResult (value : UInt16) :
    Works (storeResult inst value : Play H Unit) (storeResult inst value : Play K Unit) := by
  simp only [Interpreter.storeResult]
  split
  · exact change (.writeVariable _ value) (Machine.inFrame_writeVariable _ value).stays
  · exact pure ()

theorem tableEntry (size : Nat) :
    Works (tableEntry inst values size : Play H UInt16)
      (tableEntry inst values size : Play K UInt16) :=
  bind (operand 0) fun _ => bind (operand 1) fun _ => pure _

theorem writeWatched {address : Nat} (near : address ≤ 0x10000) (value : UInt8) :
    Works (writeWatched address value : Play H Unit)
      (writeWatched address value : Play K Unit) := by
  have pitch : Question fun m => .ok m.fixedPitch :=
    .looking fun memory _ => memory.word Header.flags2Address &&& 2 != 0
  refine bind (ask pitch) fun before => ?_
  have stays := (Machine.InFrame.writeByte address value).stays
  refine bind (change (.writeByte address near value) stays) fun _ => ?_
  refine bind (ask pitch) fun after => ?_
  split
  · exact tell (.setFixedPitch after)
  · exact pure ()

theorem adjust (step : UInt16) :
    Works (adjust inst values step : Play H UInt16) (adjust inst values step : Play K UInt16) :=
  bind (operand 0) fun number => bind (ask (.readInPlace (Word.low number))) fun _ =>
    bind (writeInPlace (Word.low number) _) fun _ => pure _

theorem output (text : List Char) :
    Works (output text : Play H Unit) (output text : Play K Unit) := by
  refine bind selected fun streams => ?_
  split
  · exact change (.appendToTable _ text) (Machine.inFrame_appendToTable _ text).stays
  · split
    · have transcript : Question fun m => .ok m.transcriptOn :=
        .looking fun memory _ => memory.word Header.flags2Address &&& 1 != 0
      exact bind (ask transcript) fun on => tell (.print _ on)
    · exact pure ()

theorem printInline :
    Works (printInline inst : Play H Unit) (printInline inst : Play K Unit) := by
  simp only [Interpreter.printInline]
  split
  · exact output _
  · exact pure ()

theorem showStatus : Works (showStatus : Play H Unit) (showStatus : Play K Unit) :=
  bind (ask .statusLine) fun (name, status) => tell (.updateStatus (String.ofList name) status)

end Works

namespace Ending

theorem finish (value : UInt16) :
    Ending inst (finish inst value : Play H Outcome) (finish inst value : Play K Outcome) :=
  bind (.storeResult value) fun _ => goOn

theorem branchIf (condition : Bool) :
    Ending inst (branchIf inst condition : Play H Outcome)
      (branchIf inst condition : Play K Outcome) := by
  simp only [Interpreter.branchIf]
  split
  · exact goOn
  · next branch found =>
    split
    · exact goOn
    · split
      · exact returnValue 0
      · split
        · exact returnValue 1
        · exact jumpBy _ (Or.inl ⟨branch, found, rfl⟩)

theorem with_one {f : UInt16 → Play H Outcome} {g : UInt16 → Play K Outcome}
    (rest : ∀ a, Ending inst (f a) (g a)) :
    Ending inst (do let a ← operand inst values 0; f a)
      (do let a ← operand inst values 0; g a) :=
  bind (.operand 0) rest

/-- What comes behind the first operand may rely on there being one. -/
theorem with_first {f : UInt16 → Play H Outcome} {g : UInt16 → Play K Outcome}
    (rest : ∀ a others, values = a :: others → Ending inst (f a) (g a)) :
    Ending inst (do let a ← operand inst values 0; f a)
      (do let a ← operand inst values 0; g a) := by
  cases values with
  | nil =>
    exact bind (f := fun _ => Pure.pure .continued) (g := fun _ => Pure.pure .continued)
      (.refuse (α := UInt16) (.missingOperand inst.opcode 0)) fun _ => goOn
  | cons a others => exact rest a others rfl

theorem with_two {f : UInt16 → UInt16 → Play H Outcome} {g : UInt16 → UInt16 → Play K Outcome}
    (rest : ∀ a b, Ending inst (f a b) (g a b)) :
    Ending inst
      (do
        let a ← operand inst values 0
        let b ← operand inst values 1
        f a b)
      (do
        let a ← operand inst values 0
        let b ← operand inst values 1
        g a b) :=
  with_one fun a => bind (.operand 1) (rest a)

theorem call (isCall : inst.opcode = .call) :
    Ending inst (call inst values : Play H Outcome) (call inst values : Play K Outcome) := by
  refine with_first fun packed arguments eq => ?_
  by_cases none : packed = 0
  · rw [if_pos none, if_pos none]
    exact finish 0
  · rw [if_neg none, if_neg none, eq, furtherOperands_cons, furtherOperands_cons]
    exact callPacked isCall packed arguments

theorem compareEqual :
    Ending inst
      (do
        let a ← operand inst values 0
        let others ← furtherOperands values
        Interpreter.branchIf inst (others.contains a) : Play H Outcome)
      (do
        let a ← operand inst values 0
        let others ← furtherOperands values
        Interpreter.branchIf inst (others.contains a) : Play K Outcome) := by
  refine with_first fun a others eq => ?_
  rw [eq, furtherOperands_cons, furtherOperands_cons]
  exact branchIf _

theorem compareBranch (holds : Int → Int → Bool) :
    Ending inst (compareBranch inst values holds : Play H Outcome)
      (compareBranch inst values holds : Play K Outcome) :=
  with_two fun _ _ => branchIf _

theorem combine (f : UInt16 → UInt16 → UInt16) :
    Ending inst (combine inst values f : Play H Outcome)
      (combine inst values f : Play K Outcome) :=
  with_two fun _ _ => finish _

theorem divide (f : Int → Int → Int) :
    Ending inst (divide inst values f : Play H Outcome)
      (divide inst values f : Play K Outcome) := by
  refine with_two fun a b => ?_
  split
  · exact failDivision
  · exact finish _

theorem askOne {f : UInt16 → Machine → Except MachineError UInt16} (hf : ∀ a, Question (f a)) :
    Ending inst (askOne inst values f : Play H Outcome)
      (askOne inst values f : Play K Outcome) :=
  with_one fun a => bind (.ask (hf a)) fun value => finish value

theorem askTwo {f : UInt16 → UInt16 → Machine → Except MachineError UInt16}
    (hf : ∀ a b, Question (f a b)) :
    Ending inst (askTwo inst values f : Play H Outcome)
      (askTwo inst values f : Play K Outcome) :=
  with_two fun a b => bind (.ask (hf a b)) fun value => finish value

theorem askObject (l : Link) :
    Ending inst (askObject inst values l : Play H Outcome)
      (askObject inst values l : Play K Outcome) :=
  with_one fun object => bind (.ask (.link l object)) fun found =>
    bind (.storeResult found) fun _ => branchIf _

theorem executeJin :
    Ending inst (executeJin inst values : Play H Outcome)
      (executeJin inst values : Play K Outcome) :=
  with_two fun object _ => bind (.ask (.link .parent object)) fun _ => branchIf _

theorem executeTestAttr :
    Ending inst (executeTestAttr inst values : Play H Outcome)
      (executeTestAttr inst values : Play K Outcome) :=
  with_two fun object index => bind (.ask (.hasAttribute object index)) fun has => branchIf has

theorem changeTwo {f : UInt16 → UInt16 → MachineM Unit} (hf : ∀ a b, Change (f a b))
    (stays : ∀ a b, Machine.Stays (f a b)) :
    Ending inst (changeTwo inst values f : Play H Outcome)
      (changeTwo inst values f : Play K Outcome) :=
  with_two fun a b => bind (.change (hf a b) (stays a b)) fun _ => goOn

theorem executePutProp :
    Ending inst (executePutProp inst values : Play H Outcome)
      (executePutProp inst values : Play K Outcome) :=
  with_two fun object property => bind (.operand 2) fun value =>
    bind (.change (.putProperty object property value) (Machine.inFrame_putProperty _ _ _).stays)
      fun _ => goOn

theorem executeLoadw :
    Ending inst (executeLoadw inst values : Play H Outcome)
      (executeLoadw inst values : Play K Outcome) :=
  bind (.tableEntry 2) fun address => bind (.ask (.wordAt address)) fun value => finish value

theorem executeLoadb :
    Ending inst (executeLoadb inst values : Play H Outcome)
      (executeLoadb inst values : Play K Outcome) :=
  bind (.tableEntry 1) fun address =>
    bind (.ask (.looking fun memory _ => memory.byte address.toNat)) fun _ => finish _

theorem executeStorew :
    Ending inst (executeStorew inst values : Play H Outcome)
      (executeStorew inst values : Play K Outcome) := by
  refine bind (.tableEntry 2) fun address => bind (.operand 2) fun value => ?_
  have bound := address.toNat_lt
  refine bind (.writeWatched (Nat.le_of_lt bound) _) fun _ => ?_
  exact bind (.writeWatched bound _) fun _ => goOn

theorem executeStoreb :
    Ending inst (executeStoreb inst values : Play H Outcome)
      (executeStoreb inst values : Play K Outcome) :=
  bind (.tableEntry 1) fun address => bind (.operand 2) fun _ =>
    bind (.writeWatched (Nat.le_of_lt address.toNat_lt) _) fun _ => goOn

theorem executeLoad :
    Ending inst (executeLoad inst values : Play H Outcome)
      (executeLoad inst values : Play K Outcome) :=
  with_one fun number => bind (.ask (.readInPlace (Word.low number))) fun value => finish value

theorem adjustBranch (step : UInt16) (holds : Int → Int → Bool) :
    Ending inst (adjustBranch inst values step holds : Play H Outcome)
      (adjustBranch inst values step holds : Play K Outcome) :=
  bind (.adjust step) fun _ => bind (.operand 1) fun _ => branchIf _

theorem executePush :
    Ending inst (executePush inst values : Play H Outcome)
      (executePush inst values : Play K Outcome) :=
  with_one fun value =>
    bind (.change (.push value) (Machine.InFrame.push value).stays) fun _ => goOn

theorem executePull :
    Ending inst (executePull inst values : Play H Outcome)
      (executePull inst values : Play K Outcome) :=
  with_one fun number => bind .pop fun value =>
    bind (.writeInPlace (Word.low number) value) fun _ => goOn

theorem printFound {f : UInt16 → Machine → Except MachineError (List Char)}
    (hf : ∀ a, Question (f a)) :
    Ending inst (printFound inst values f : Play H Outcome)
      (printFound inst values f : Play K Outcome) :=
  with_one fun a => bind (.ask (hf a)) fun text => bind (.output text) fun _ => goOn

theorem executePrintChar :
    Ending inst (executePrintChar inst values : Play H Outcome)
      (executePrintChar inst values : Play K Outcome) := by
  have known (code : UInt16) : (fun _ : Machine => Zscii.character code.toNat) =
      fun _ => .ok (Zscii.toChar? code.toNat) := funext fun _ => Zscii.character_eq _
  refine with_one fun code => ?_
  rw [known]
  refine bind (.ask (.looking fun _ _ => Zscii.toChar? code.toNat)) fun c => ?_
  split
  · exact bind (.output _) fun _ => goOn
  · exact bind (.pure ()) fun _ => goOn

theorem executePrintNum :
    Ending inst (executePrintNum inst values : Play H Outcome)
      (executePrintNum inst values : Play K Outcome) :=
  with_one fun _ => bind (.output _) fun _ => goOn

theorem tellOne {f : H → UInt16 → H} {g : K → UInt16 → K} (notice : UInt16 → Notice)
    (hf : ∀ a host, f host a = (notice a).send host)
    (hg : ∀ a host, g host a = (notice a).send host) :
    Ending inst (tellOne inst values f) (tellOne inst values g) := by
  refine with_one fun a => ?_
  simp only [hf, hg]
  exact bind (.tell (notice a)) fun _ => goOn

theorem executeOutputStream :
    Ending inst (executeOutputStream inst values : Play H Outcome)
      (executeOutputStream inst values : Play K Outcome) :=
  with_one fun _ => bind (.selectStream _ _) fun _ => goOn

theorem executeVerify :
    Ending inst (executeVerify inst : Play H Outcome) (executeVerify inst : Play K Outcome) :=
  bind (.ask (.looking fun _ story => decide (story.checksum = story.header.checksum))) fun _ =>
    branchIf _

theorem executeWith (inward : outward inst.opcode = false) :
    Ending inst (executeWith inst values : Play H Outcome)
      (executeWith inst values : Play K Outcome) := by
  simp only [Interpreter.executeWith]
  cases op : inst.opcode with
  | je => exact compareEqual
  | jl => exact compareBranch _
  | jg => exact compareBranch _
  | jz => exact with_one fun _ => branchIf _
  | test => exact with_two fun _ _ => branchIf _
  | or => exact combine _
  | and => exact combine _
  | not => exact with_one fun _ => finish _
  | add => exact combine _
  | sub => exact combine _
  | mul => exact combine _
  | div => exact divide _
  | mod => exact divide _
  | jin => exact executeJin
  | testAttr => exact executeTestAttr
  | setAttr =>
    exact changeTwo (fun object index => .setAttribute object index true)
      fun _ _ => (Machine.inFrame_setAttribute _ _ true).stays
  | clearAttr =>
    exact changeTwo (fun object index => .setAttribute object index false)
      fun _ _ => (Machine.inFrame_setAttribute _ _ false).stays
  | insertObj => exact changeTwo .insertObject fun _ _ => (Machine.inFrame_insertObject _ _).stays
  | removeObj =>
    exact with_one fun object =>
      bind (.change (.removeObject object) (Machine.inFrame_removeObject object).stays)
        fun _ => goOn
  | getProp => exact askTwo .getProperty
  | getPropAddr => exact askTwo .propertyAddress
  | getNextProp => exact askTwo .nextProperty
  | getPropLen =>
    have known (address : UInt16) := funext (Machine.propertyLength_eq address)
    refine askOne fun address => ?_
    rw [known]
    exact .looking fun memory _ =>
      if address = 0 then 0
      else UInt16.ofNat (Machine.lengthOfSizeByte (memory.byte (address.toNat - 1)))
  | putProp => exact executePutProp
  | getSibling => exact askObject .sibling
  | getChild => exact askObject .child
  | getParent => exact askOne (.link .parent)
  | printObj => exact printFound .objectName
  | store =>
    exact changeTwo (fun number value => .writeInPlace (Word.low number) value)
      fun number value => (Machine.inFrame_writeInPlace (Word.low number) value).stays
  | load => exact executeLoad
  | loadw => exact executeLoadw
  | loadb => exact executeLoadb
  | storew => exact executeStorew
  | storeb => exact executeStoreb
  | inc => exact bind (.adjust 1) fun _ => goOn
  | dec => exact bind (.adjust (-1)) fun _ => goOn
  | incChk => exact adjustBranch 1 _
  | decChk => exact adjustBranch (-1) _
  | push => exact executePush
  | pull => exact executePull
  | pop => exact bind .pop fun _ => goOn
  | print => exact bind .printInline fun _ => goOn
  | printRet => exact bind .printInline fun _ => bind (.output _) fun _ => returnValue 1
  | printAddr => exact printFound .textAt
  | printPaddr => exact printFound .textAtPacked
  | printChar => exact executePrintChar
  | printNum => exact executePrintNum
  | newLine => exact bind (.output _) fun _ => goOn
  | showStatus => exact bind .showStatus fun _ => goOn
  | splitWindow => exact tellOne .splitWindow (fun _ _ => rfl) fun _ _ => rfl
  | setWindow => exact tellOne .selectWindow (fun _ _ => rfl) fun _ _ => rfl
  | outputStream => exact executeOutputStream
  | inputStream => exact goOn
  | soundEffect => exact goOn
  | call => exact call op
  | ret => exact with_one fun value => returnValue value
  | rtrue => exact returnValue 1
  | rfalse => exact returnValue 0
  | retPopped => exact bind .pop fun value => returnValue value
  | jump => exact with_one fun _ => jumpBy _ (Or.inr op)
  | nop => exact goOn
  | quit => exact quit
  | verify => exact executeVerify
  | piracy => exact branchIf _
  | sread | random | save | restore | restart =>
    rw [op] at inward
    cases inward

end Ending

namespace Composed

theorem of_works {α : Type} {x : Play H α} {y : Play K α} (h : Works x y) : Composed x := by
  induction h with
  | pure a => exact pure a
  | bind _ _ first rest => exact bind first rest
  | refuse why => exact refuse why
  | ask q => exact ask q
  | change c _ => exact change c
  | tell notice => exact tell notice
  | selected => exact selected
  | selectStream stream table => exact selectStream stream table

theorem of_ending {x : Play H Outcome} {y : Play K Outcome} (h : Ending inst x y) :
    Composed x := by
  induction h with
  | bind first _ rest => exact bind (of_works first) rest
  | goOn => exact pure _
  | quit => exact pure _
  | failDivision => exact failDivision
  | jumpBy offset => exact bind (change (.jump offset)) fun _ => pure _
  | returnValue value => exact bind (change (.giveBack value)) fun _ => pure _
  | callPacked _ packed arguments =>
    exact bind (change (.callPacked packed arguments inst.store)) fun _ => pure _

theorem resolveAll (operands : List Operand) :
    Composed (resolveAll operands : Play H (List UInt16)) :=
  of_works (K := H) (.resolveAll operands)

theorem branchIf (condition : Bool) : Composed (branchIf inst condition : Play H Outcome) :=
  of_ending (K := H) (.branchIf condition)

theorem operand (index : Nat) : Composed (operand inst values index : Play H UInt16) :=
  of_works (K := H) (.operand index)

theorem executeRandom : Composed (executeRandom inst values : Play H Outcome) :=
  bind (operand 0) fun _ => bind (roll _) fun value => of_ending (K := H) (.finish value)

theorem executeRead : Composed (executeRead inst values : Play H Outcome) := by
  refine bind (operand 0) fun text => bind (of_works (K := H) .showStatus) fun _ => ?_
  refine bind (ask (.looking fun memory _ => (memory.byte text.toNat).toNat - 1)) fun length => ?_
  refine bind (readLine length) fun line => ?_
  split
  · exact bind (storeLine _ text _) fun _ => pure _
  · exact bind (await text _) fun _ => pure _

theorem executeWith (h : wholesale inst.opcode = false) :
    Composed (executeWith inst values : Play H Outcome) := by
  cases out : outward inst.opcode with
  | false => exact of_ending (K := H) (.executeWith out)
  | true =>
    rw [Interpreter.executeWith]
    rcases eq_of_outward out with op | op | whole
    · rw [op]
      exact executeRead
    · rw [op]
      exact executeRandom
    · rw [h] at whole
      cases whole

end Composed

end ZMachine.Interpreter
