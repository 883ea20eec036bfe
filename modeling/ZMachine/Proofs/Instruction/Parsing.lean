import ZMachine.Proofs.Instruction.Format
import ZMachine.Proofs.ZString.Decoding

/-!
# Instructions are read as they are written

`Parses memory x format` says what a reader accepts: from an address in memory it gives a result
just if bytes stand there that the format gives the result, and it moves behind them. Readers that
run one after the other parse the bytes of one format followed by those of the other
(`Parses.bind`), so what the reader of instructions parses is put together from its parts.
`decode_eq_ok_iff` is the outcome: an instruction is read just where bytes stand that `Encodes`
gives it.
-/

namespace ZMachine.Instruction

variable {α β : Type} {memory : Memory} {start table : Nat}

/-- The reader gives just the results that the format has for the bytes in memory. -/
structure Parses (memory : Memory) (x : Reader α) (format : Nat → α → List UInt8 → Prop) :
    Prop where
  eq_ok_iff : ∀ {address a next}, address ≤ memory.size → (x address = .ok (a, next) ↔
    ∃ bytes, format address a bytes ∧ memory.Holds address bytes ∧ next = address + bytes.length)

namespace Parses

variable {x : Reader α} {format format' : Nat → α → List UInt8 → Prop}

theorem congr (h : Parses memory x format)
    (same : ∀ address a bytes, format address a bytes ↔ format' address a bytes) :
    Parses memory x format' where
  eq_ok_iff le := by simp only [h.eq_ok_iff le, same]

theorem pure (a : α) :
    Parses memory (pure a : Reader α) fun _ result bytes => result = a ∧ bytes = [] where
  eq_ok_iff {address result next} le := by
    constructor
    · intro h
      cases h
      exact ⟨[], ⟨rfl, rfl⟩, Memory.holds_nil.mpr le, rfl⟩
    · rintro ⟨_, ⟨rfl, rfl⟩, -, rfl⟩
      rfl

theorem bind {f : α → Reader β} {behind : α → Nat → β → List UInt8 → Prop}
    (hx : Parses memory x format) (hf : ∀ a, Parses memory (f a) (behind a)) :
    Parses memory (x >>= f) fun address b bytes => ∃ a front back,
      format address a front ∧ behind a (address + front.length) b back ∧
        bytes = front ++ back where
  eq_ok_iff {address b next} le := by
    rw [reader_bind_eq_ok]
    constructor
    · rintro ⟨a, mid, first, second⟩
      obtain ⟨front, hfront, here, rfl⟩ := (hx.eq_ok_iff le).mp first
      obtain ⟨back, hback, there, rfl⟩ := ((hf a).eq_ok_iff here.le_size).mp second
      refine ⟨front ++ back, ⟨a, front, back, hfront, hback, rfl⟩, ?_, ?_⟩
      · exact Memory.holds_append.mpr ⟨here, there⟩
      · rw [List.length_append, Nat.add_assoc]
    · rintro ⟨_, ⟨a, front, back, hfront, hback, rfl⟩, held, rfl⟩
      obtain ⟨here, there⟩ := Memory.holds_append.mp held
      refine ⟨a, address + front.length, (hx.eq_ok_iff le).mpr ⟨front, hfront, here, rfl⟩, ?_⟩
      rw [List.length_append, ← Nat.add_assoc]
      exact ((hf a).eq_ok_iff here.le_size).mpr ⟨back, hback, there, rfl⟩

/-- A reader that makes its result of what it has read reads the same bytes. -/
theorem bind_pure (hx : Parses memory x format) (f : α → β) :
    Parses memory (x >>= fun a => Pure.pure (f a)) fun address b bytes =>
      ∃ a, format address a bytes ∧ b = f a := by
  refine (hx.bind fun a => pure (f a)).congr fun address b bytes => ?_
  constructor
  · rintro ⟨a, front, _, h, ⟨rfl, rfl⟩, rfl⟩
    exact ⟨a, by rwa [List.append_nil], rfl⟩
  · rintro ⟨a, h, rfl⟩
    exact ⟨a, bytes, [], h, ⟨rfl, rfl⟩, (List.append_nil bytes).symm⟩

theorem ite {p : Prop} [Decidable p] {y : Reader α} (hx : Parses memory x format)
    (hy : Parses memory y format') :
    Parses memory (if p then x else y) fun address a bytes =>
      if p then format address a bytes else format' address a bytes := by
  split
  · exact hx
  · exact hy

end Parses

theorem nextByte_eq_ok_iff {part : InstructionPart} {address next : Nat} {b : UInt8} :
    nextByte memory start part address = .ok (b, next) ↔
      address < memory.size ∧ memory.byte address = b ∧ next = address + 1 := by
  simp only [nextByte, Memory.byte, Array.getD_eq_getD_getElem?]
  cases found : memory[address]? with
  | some c =>
    have inside := (Array.getElem?_eq_some_iff.mp found).1
    simp [inside, eq_comm]
  | none =>
    have outside := Array.getElem?_eq_none_iff.mp found
    simp [Nat.not_lt_of_le outside]

theorem parses_nextByte (part : InstructionPart) :
    Parses memory (nextByte memory start part) fun _ b bytes => bytes = [b] where
  eq_ok_iff {address b next} le := by
    rw [nextByte_eq_ok_iff]
    constructor
    · rintro ⟨inside, eq, rfl⟩
      exact ⟨[b], rfl, Memory.holds_cons.mpr ⟨inside, eq, Memory.holds_nil.mpr inside⟩, rfl⟩
    · rintro ⟨_, rfl, held, rfl⟩
      obtain ⟨inside, eq, -⟩ := Memory.holds_cons.mp held
      exact ⟨inside, eq, rfl⟩

theorem Parses.byte_bind {f : UInt8 → Reader α} {behind : UInt8 → Nat → α → List UInt8 → Prop}
    (part : InstructionPart) (h : ∀ b, Parses memory (f b) (behind b)) :
    Parses memory (nextByte memory start part >>= f) fun address a bytes =>
      ∃ b rest, bytes = b :: rest ∧ behind b (address + 1) a rest := by
  refine ((parses_nextByte part).bind h).congr fun address a bytes => ?_
  constructor
  · rintro ⟨b, _, rest, rfl, h, rfl⟩
    exact ⟨b, rest, rfl, h⟩
  · rintro ⟨b, rest, rfl, h⟩
    exact ⟨b, [b], rest, rfl, h, rfl⟩

/-- The bytes of operands of the given types. -/
def Listed (types : List OperandType) (_ : Nat) (operands : List Operand) (bytes : List UInt8) :
    Prop :=
  operands.map Operand.type = types.filter (· ≠ .omitted) ∧ bytes = operands.flatMap Operand.bytes

theorem parses_byteOperand {type : OperandType} {types : List OperandType}
    (others : Parses memory (readOperands memory start types) (Listed types))
    (operandOf : UInt8 → Operand) (given : type ≠ .omitted)
    (typed : ∀ operand : Operand, operand.type = type ↔ ∃ b, operand = operandOf b)
    (written : ∀ b, (operandOf b).bytes = [b]) :
    Parses memory (nextByte memory start .operand >>= fun b =>
      readOperands memory start types >>= fun rest => pure (operandOf b :: rest))
      (Listed (type :: types)) := by
  refine (Parses.byte_bind _ fun b => others.bind_pure (operandOf b :: ·)).congr
    fun _ operands bytes => ?_
  rw [Listed, List.filter_cons_of_pos (by simpa using given)]
  constructor
  · rintro ⟨b, _, rfl, rest, ⟨behind, rfl⟩, rfl⟩
    rw [List.map_cons, behind, (typed (operandOf b)).mpr ⟨b, rfl⟩, List.flatMap_cons, written]
    exact ⟨rfl, rfl⟩
  · rintro ⟨all, rfl⟩
    obtain ⟨first, rest, rfl, one, behind⟩ := List.map_eq_cons_iff.mp all
    obtain ⟨b, rfl⟩ := (typed first).mp one
    rw [List.flatMap_cons, written]
    exact ⟨b, _, rfl, rest, ⟨behind, rfl⟩, rfl⟩

theorem parses_readOperands (types : List OperandType) :
    Parses memory (readOperands memory start types) (Listed types) := by
  induction types with
  | nil =>
    refine (Parses.pure []).congr fun _ operands bytes => ?_
    rw [Listed, List.filter_nil, List.map_eq_nil_iff]
    constructor
    · rintro ⟨rfl, rfl⟩
      exact ⟨rfl, rfl⟩
    · rintro ⟨rfl, rfl⟩
      exact ⟨rfl, rfl⟩
  | cons type types ih =>
    cases type with
    | largeConstant =>
      refine (Parses.byte_bind _ fun high => Parses.byte_bind _ fun low =>
        ih.bind_pure (Operand.large (Word.ofBytes high low) :: ·)).congr
          fun _ operands bytes => ?_
      rw [Listed, List.filter_cons_of_pos (by decide)]
      constructor
      · rintro ⟨high, _, rfl, low, _, rfl, rest, ⟨typed, rfl⟩, rfl⟩
        rw [List.map_cons, typed, List.flatMap_cons, Operand.bytes, Word.bytes, Word.high_ofBytes,
          Word.low_ofBytes]
        exact ⟨rfl, rfl⟩
      · rintro ⟨typed, rfl⟩
        obtain ⟨first, rest, rfl, two, others⟩ := List.map_eq_cons_iff.mp typed
        cases first with
        | large value =>
          refine ⟨Word.high value, _, rfl, Word.low value, _, rfl, rest, ⟨others, rfl⟩, ?_⟩
          rw [Word.ofBytes_high_low]
        | small _ => cases two
        | var _ => cases two
    | smallConstant =>
      refine parses_byteOperand ih Operand.small (by decide) (fun operand => ?_) fun _ => rfl
      cases operand <;> simp [Operand.type]
    | var =>
      refine parses_byteOperand ih Operand.var (by decide) (fun operand => ?_) fun _ => rfl
      cases operand <;> simp [Operand.type]
    | omitted => exact ih

theorem parses_readTypes {b : UInt8} {form : InstructionForm} {op : Opcode}
    (parts : splitOpcode b = (form, op.count, op.number)) :
    Parses memory (readTypes memory start b form) fun _ types behind =>
      Opening op form types (b :: behind) := by
  cases form with
  | long => exact (Parses.pure _).congr fun _ _ _ => (opening_long_iff parts).symm
  | short => exact (Parses.pure _).congr fun _ _ _ => (opening_short_iff parts).symm
  | var =>
    refine (Parses.byte_bind _ fun t => Parses.pure (typesOfByte t)).congr fun _ types behind => ?_
    rw [opening_var_iff parts]
    constructor
    · rintro ⟨t, _, rfl, rfl, rfl⟩
      exact ⟨t, rfl, rfl⟩
    · rintro ⟨t, rfl, rfl⟩
      exact ⟨t, [], rfl, rfl, rfl⟩

theorem Parses.field {x : Reader (Option α)} {encodes : Nat → α → List UInt8 → Prop} (called : Bool)
    (h : Parses memory x fun address result bytes =>
      ∃ a, encodes address a bytes ∧ result = some a) :
    Parses memory (if called then x else Pure.pure none) fun address result bytes =>
      Field (encodes address) called result bytes := by
  cases called with
  | false =>
    refine (Parses.pure none).congr fun address result bytes => ?_
    constructor
    · rintro ⟨rfl, rfl⟩
      exact .absent
    · intro h
      cases h
      exact ⟨rfl, rfl⟩
  | true =>
    refine h.congr fun address result bytes => ?_
    constructor
    · rintro ⟨a, encoded, rfl⟩
      exact .present encoded
    · intro h
      cases h with
      | present encoded => exact ⟨_, encoded, rfl⟩

theorem parses_readStore (op : Opcode) :
    Parses memory (readStore memory start op) fun _ store bytes =>
      Field (fun number bytes => bytes = [number]) op.storesResult store bytes :=
  Parses.field _ ((parses_nextByte _).bind_pure some)

theorem parses_readBranch (op : Opcode) :
    Parses memory (readBranch memory start op) fun _ branch bytes =>
      Field Branch.Encodes op.hasBranch branch bytes := by
  refine Parses.field _ ((Parses.byte_bind _ fun first => Parses.ite (Parses.pure _)
    (Parses.byte_bind _ fun second => Parses.pure _)).congr fun _ result bytes => ?_)
  constructor
  · rintro ⟨first, behind, rfl, h⟩
    split at h
    · next short =>
      obtain ⟨rfl, rfl⟩ := h
      refine ⟨_, encodes_branch_iff.mpr ⟨first, [], rfl, ?_⟩, rfl⟩
      rw [if_pos short]
      exact ⟨rfl, rfl⟩
    · next long =>
      obtain ⟨second, _, rfl, rfl, rfl⟩ := h
      refine ⟨_, encodes_branch_iff.mpr ⟨first, [second], rfl, ?_⟩, rfl⟩
      rw [if_neg long]
      exact ⟨second, rfl, rfl⟩
  · rintro ⟨branch, encoded, rfl⟩
    obtain ⟨first, behind, rfl, h⟩ := encodes_branch_iff.mp encoded
    refine ⟨first, behind, rfl, ?_⟩
    split at h
    · next short =>
      obtain ⟨rfl, rfl⟩ := h
      rw [if_pos short]
      exact ⟨rfl, rfl⟩
    · next long =>
      obtain ⟨second, rfl, rfl⟩ := h
      rw [if_neg long]
      exact ⟨second, [], rfl, rfl, rfl⟩

theorem parses_readText (op : Opcode) :
    Parses memory (readText memory table op) fun address text bytes =>
      Field (TextAt memory address table) op.hasText text bytes := by
  refine Parses.field _ ⟨fun {address result next} le => ?_⟩
  have runs : ZString.Runs memory address (ZString.words memory address) :=
    (ZString.words_eq_iff le).mp rfl
  constructor
  · intro h
    obtain ⟨⟨text, length⟩, found, eq⟩ := except_bind_eq_ok.mp h
    cases eq
    have size := ZString.length_of_decode found
    rw [← Word.length_flatMap_bytes] at size
    refine ⟨_, ⟨String.ofList text, ⟨⟨_, runs, rfl⟩, ?_⟩, rfl⟩, runs.stored, by rw [size]⟩
    rw [String.toList_ofList, found, size]
  · rintro ⟨bytes, ⟨text, ⟨⟨ws, -, rfl⟩, found⟩, rfl⟩, -, rfl⟩
    rw [except_bind_of_ok found]
    dsimp only
    rw [String.ofList_toList]
    rfl

theorem parses_get : Parses memory (get : Reader Nat) fun address result bytes =>
    result = address ∧ bytes = [] where
  eq_ok_iff {address result next} le := by
    constructor
    · intro h
      cases h
      exact ⟨[], ⟨rfl, rfl⟩, Memory.holds_nil.mpr le, rfl⟩
    · rintro ⟨_, ⟨rfl, rfl⟩, -, rfl⟩
      rfl

theorem parses_subtract (n : Nat) :
    Parses memory (liftM (subtract n start) : Reader Nat) fun _ result bytes =>
      start + result = n ∧ bytes = [] where
  eq_ok_iff {address result next} le := by
    constructor
    · intro h
      by_cases begun : start ≤ n
      · rw [subtract_of_le begun] at h
        cases h
        exact ⟨[], ⟨Nat.add_sub_cancel' begun, rfl⟩, Memory.holds_nil.mpr le, rfl⟩
      · rw [subtract, if_neg begun] at h
        cases h
    · rintro ⟨_, ⟨rfl, rfl⟩, -, rfl⟩
      rw [subtract_of_le (Nat.le_add_right _ _), Nat.add_sub_cancel_left]
      rfl

theorem parses_throw (e : MachineError) :
    Parses memory (throw e : Reader α) fun _ _ _ => False where
  eq_ok_iff _ := by
    constructor
    · exact nofun
    · rintro ⟨_, ⟨⟩, -⟩

/-- What stands behind the first byte `b` of an instruction, from `address` on. -/
inductive Follows (memory : Memory) (start table : Nat) (b : UInt8) (form : InstructionForm)
    (op : Opcode) (address : Nat) (inst : Instruction) : List UInt8 → Prop
  | intro {types body : List UInt8} (opcode : inst.opcode = op) (laid : inst.form = form)
      (opens : Opening op form (inst.operands.map Operand.type) (b :: types))
      (follows : Body memory (address + types.length) table inst body)
      (size : start + inst.size = address + (types ++ body).length) :
    Follows memory start table b form op address inst (types ++ body)

theorem parses_readBehind {b : UInt8} {form : InstructionForm} {op : Opcode}
    (parts : splitOpcode b = (form, op.count, op.number)) :
    Parses memory (readBehind memory start table b form op)
      (Follows memory start table b form op) := by
  refine ((parses_readTypes parts).bind fun types => (parses_readOperands types).bind
    fun operands => (parses_readStore op).bind fun store => (parses_readBranch op).bind
    fun branch => (parses_readText op).bind fun text => parses_get.bind
    fun next => (parses_subtract next).bind_pure _).congr fun address inst bytes => ?_
  -- The formats of readers in a row are nested: the bytes behind each are those of all that follow.
  constructor
  · rintro ⟨types, front, _, opens, ⟨operands, _, _, ⟨listed, rfl⟩, ⟨store, stored, _, stores,
      ⟨branch, branched, _, branches, ⟨text, told, _, reads,
      ⟨_, _, _, ⟨rfl, rfl⟩, ⟨size, ⟨measured, rfl⟩, rfl⟩, rfl⟩, rfl⟩, rfl⟩,
      rfl⟩, rfl⟩, rfl⟩
    rw [opens.filter_eq] at listed
    subst listed
    simp only [List.append_nil, ← List.append_assoc]
    rw [List.append_assoc front, List.append_assoc front, List.append_assoc front]
    refine .intro rfl rfl opens (.intro stores branches ?_) ?_
    · simpa [Nat.add_assoc] using reads
    · simpa [Nat.add_assoc] using measured
  · rintro @⟨types, _, rfl, rfl, opens, @⟨store, branch, text, stores, branches, reads⟩, size⟩
    simp only [List.length_append, ← Nat.add_assoc] at reads size
    refine ⟨_, types, _, opens, ⟨inst.operands, _, _, ⟨opens.filter_eq.symm, rfl⟩, ⟨inst.store,
      store, _, stores, ⟨inst.branch, branch, _, branches, ⟨inst.text, text, _, reads,
      ⟨_, _, _, ⟨rfl, rfl⟩, ⟨inst.size, ⟨size, rfl⟩, ?_⟩, rfl⟩, rfl⟩, rfl⟩, rfl⟩, rfl⟩, ?_⟩
    · rfl
    · simp

theorem Follows.of_opcode {b : UInt8} {form : InstructionForm} {op : Opcode} {address : Nat}
    {inst : Instruction} {bytes : List UInt8}
    (h : Follows memory start table b form op address inst bytes) :
    inst.opcode = op ∧ inst.form = form := by
  cases h with
  | intro opcode laid => exact ⟨opcode, laid⟩

/-- The first byte `b` of an instruction and what stands behind it, from `address` on. -/
def Begins (memory : Memory) (start table : Nat) (b : UInt8) (address : Nat) (inst : Instruction)
    (behind : List UInt8) : Prop :=
  b ≠ extendedByte ∧ splitOpcode b = (inst.form, inst.opcode.count, inst.opcode.number) ∧
    Follows memory start table b inst.form inst.opcode address inst behind

theorem parses_read :
    Parses memory (read memory start table) fun address inst bytes =>
      ∃ b behind, bytes = b :: behind ∧ Begins memory start table b (address + 1) inst behind := by
  refine Parses.byte_bind _ fun b => ?_
  split
  · next extended =>
    refine (Parses.byte_bind _ fun _ => parses_throw _).congr fun address inst bytes => ?_
    constructor
    · rintro ⟨_, _, _, ⟨⟩⟩
    · rintro ⟨plain, -, -⟩
      exact absurd extended plain
  · next plain =>
    rcases parts : splitOpcode b with ⟨form, count, number⟩
    dsimp only
    cases known : Opcode.ofEncoding count number with
    | none =>
      refine (parses_throw _).congr fun address inst bytes => ?_
      constructor
      · exact nofun
      · rintro ⟨-, same, -⟩
        cases parts.symm.trans same
        rw [Opcode.ofEncoding_encoding] at known
        cases known
    | some op =>
      have encoding := Opcode.encoding_of_ofEncoding known
      have same : splitOpcode b = (form, op.count, op.number) := by
        rw [parts, Opcode.count, Opcode.number, encoding]
      refine (parses_readBehind same).congr fun address inst bytes => ?_
      constructor
      · intro h
        obtain ⟨rfl, rfl⟩ := h.of_opcode
        exact ⟨plain, same, h⟩
      · rintro ⟨-, eq, h⟩
        cases parts.symm.trans eq
        rw [Opcode.ofEncoding_encoding] at known
        cases known
        exact h

theorem add_length_cons (n : Nat) (b : UInt8) (rest : List UInt8) :
    n + (b :: rest).length = n + 1 + rest.length := by
  rw [List.length_cons]
  omega

theorem encodes_iff {inst : Instruction} {bytes : List UInt8} :
    Encodes memory start table inst bytes ↔
      ∃ b behind, bytes = b :: behind ∧ Begins memory start table b (start + 1) inst behind := by
  constructor
  · rintro @⟨_, body, opens, follows, size⟩
    obtain ⟨b, types, rfl, plain, parts⟩ := opens.first
    rw [add_length_cons] at follows
    refine ⟨b, types ++ body, rfl, plain, parts, .intro rfl rfl opens follows ?_⟩
    rw [List.cons_append, List.length_cons] at size
    omega
  · rintro ⟨b, _, rfl, plain, parts, @⟨types, body, -, -, opens, follows, size⟩⟩
    rw [← add_length_cons start b] at follows
    refine @Encodes.intro memory start table inst (b :: types) body opens follows ?_
    rw [List.cons_append, List.length_cons]
    omega

theorem decode_eq_ok_iff {address : Nat} {inst : Instruction} :
    decode memory address table = .ok inst ↔
      ∃ bytes, Encodes memory address table inst bytes ∧ memory.Holds address bytes := by
  rw [decode, run'_eq_ok]
  simp only [encodes_iff]
  constructor
  · rintro ⟨next, run⟩
    obtain ⟨b, mid, first, -⟩ := reader_bind_eq_ok.mp run
    have inside := (nextByte_eq_ok_iff.mp first).1
    obtain ⟨bytes, reads, held, -⟩ := (parses_read.eq_ok_iff (Nat.le_of_lt inside)).mp run
    exact ⟨bytes, reads, held⟩
  · rintro ⟨bytes, encodes, held⟩
    exact ⟨_, (parses_read.eq_ok_iff held.start_le).mpr ⟨bytes, encodes, held, rfl⟩⟩

end ZMachine.Instruction
