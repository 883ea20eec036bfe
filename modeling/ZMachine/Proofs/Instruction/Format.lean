import ZMachine.Instruction.Decoding
import ZMachine.Proofs.ZString.Words

/-!
# How instructions are written down

`Encodes memory address table inst bytes` says that the bytes are a way to write the instruction
down, with no reference to how it is read: an opening in the long, the short or the variable form,
the operands, and those of a store variable, a branch and a text that the opcode calls for. An
instruction may have several ways, since a small offset fits either form of a branch and type fields
behind the first omitted one are free. Memory matters for a text alone, which may end with memory
and refers to abbreviations.

The rest of the module reads the fields of a single byte off such bytes: an opening begins with a
byte that splits into its parts (`Opening.first`), and given that byte the types are what the reader
takes them for (`opening_long_iff`, `opening_short_iff`, `opening_var_iff`); likewise for a branch.
-/

namespace ZMachine

namespace OperandType

/-- The two bits that stand for a type. -/
def bits : OperandType → Nat
  | largeConstant => 0
  | smallConstant => 1
  | var => 2
  | omitted => 3

/-- The type of an operand of one byte, as one bit gives it. -/
def oneByte (named : Bool) : OperandType :=
  if named then var else smallConstant

theorem bits_lt (type : OperandType) : type.bits < 4 := by
  cases type <;> decide

theorem ofBits_of_mod {type : OperandType} {n : Nat} (h : n % 4 = type.bits) : ofBits n = type := by
  rw [ofBits, h]
  cases type <;> rfl

theorem bits_ofBits (n : Nat) : (ofBits n).bits = n % 4 := by
  have bound : n % 4 < 4 := Nat.mod_lt n (by decide)
  rw [ofBits]
  generalize n % 4 = r at bound
  match r, bound with
  | 0, _ | 1, _ | 2, _ | 3, _ => rfl

end OperandType

/-- The bytes of an operand. -/
def Operand.bytes : Operand → List UInt8
  | large value => Word.bytes value
  | small value => [value]
  | var number => [number]

/-- The bytes of a branch: one for an offset from 0 to 63, two for fourteen bits in two's
complement. -/
inductive Branch.Encodes : Branch → List UInt8 → Prop
  | oneByte {onTrue : Bool} {offset : Nat} (le : offset ≤ 63) :
    Encodes { onTrue, offset } [.ofNat (onTrue.toNat * 128 + 64 + offset)]
  | twoBytes {onTrue : Bool} {offset : Int} (ge : -8192 ≤ offset) (le : offset ≤ 8191) :
    Encodes { onTrue, offset } [.ofNat (onTrue.toNat * 128 + (offset % 0x4000).toNat / 256),
      .ofNat (offset % 0x4000).toNat]

namespace Instruction

/-- The byte of four type fields, the first of them in the highest bits. -/
def typeByte (a b c d : OperandType) : UInt8 :=
  .ofNat (a.bits * 64 + b.bits * 16 + c.bits * 4 + d.bits)

/-- The types that the fields list: those before the first omitted one. -/
def Lists (fields types : List OperandType) : Prop :=
  .omitted ∉ types ∧ (fields = types ∨ ∃ ignored, fields = types ++ .omitted :: ignored)

/-- The opcode byte and, in the variable form, the byte of types behind it. -/
inductive Opening (op : Opcode) : InstructionForm → List OperandType → List UInt8 → Prop
  | long (first second : Bool) (count : op.count = .op2) :
    Opening op .long [.oneByte first, .oneByte second]
      [.ofNat (first.toNat * 64 + second.toNat * 32 + op.number)]
  | short {type : OperandType} (count : op.count = .op1) (given : type ≠ .omitted) :
    Opening op .short [type] [.ofNat (0x80 + type.bits * 16 + op.number)]
  | bare (count : op.count = .op0) :
    Opening op .short [] [.ofNat (0xB0 + op.number)]
  | varTwo {a b c d : OperandType} {types : List OperandType} (count : op.count = .op2)
      (lists : Lists [a, b, c, d] types) :
    Opening op .var types [.ofNat (0xC0 + op.number), typeByte a b c d]
  | var {a b c d : OperandType} {types : List OperandType} (count : op.count = .var)
      (lists : Lists [a, b, c, d] types) :
    Opening op .var types [.ofNat (0xE0 + op.number), typeByte a b c d]

/-- A field that an instruction has just if its opcode calls for it. -/
inductive Field {α : Type} (encodes : α → List UInt8 → Prop) :
    Bool → Option α → List UInt8 → Prop
  | absent : Field encodes false none []
  | present {a : α} {bytes : List UInt8} (h : encodes a bytes) : Field encodes true (some a) bytes

/-- The bytes are the words of the string at the address, which is read as the text. -/
def TextAt (memory : Memory) (address table : Nat) (text : String) (bytes : List UInt8) : Prop :=
  (∃ ws, ZString.Runs memory address ws ∧ bytes = ws.flatMap Word.bytes) ∧
    ZString.decode memory address table = .ok (text.toList, bytes.length)

/-- What stands behind the opening, from the address on: the operands, and the fields that the
opcode calls for. -/
inductive Body (memory : Memory) (address table : Nat) (inst : Instruction) : List UInt8 → Prop
  | intro {store branch text : List UInt8}
      (stores : Field (fun number bytes => bytes = [number]) inst.opcode.storesResult inst.store
        store)
      (branches : Field Branch.Encodes inst.opcode.hasBranch inst.branch branch)
      (reads : Field (TextAt memory
        (address + (inst.operands.flatMap Operand.bytes ++ store ++ branch).length) table)
        inst.opcode.hasText inst.text text) :
    Body memory address table inst
      (inst.operands.flatMap Operand.bytes ++ store ++ branch ++ text)

/-- The bytes are a way to write the instruction down at the address. -/
inductive Encodes (memory : Memory) (address table : Nat) (inst : Instruction) :
    List UInt8 → Prop
  | intro {opening body : List UInt8}
      (opens : Opening inst.opcode inst.form (inst.operands.map Operand.type) opening)
      (follows : Body memory (address + opening.length) table inst body)
      (size : inst.size = (opening ++ body).length) :
    Encodes memory address table inst (opening ++ body)

theorem Field.of_false {α : Type} {encodes : α → List UInt8 → Prop} {field : Option α}
    {bytes : List UInt8} (h : Field encodes false field bytes) : field = none ∧ bytes = [] := by
  cases h
  exact ⟨rfl, rfl⟩

theorem Field.imp {α : Type} {encodes encodes' : α → List UInt8 → Prop} {called : Bool}
    {field : Option α} {bytes : List UInt8} (h : Field encodes called field bytes)
    (imp : called → ∀ a, encodes a bytes → encodes' a bytes) :
    Field encodes' called field bytes := by
  cases h with
  | absent => exact .absent
  | present encoded => exact .present (imp rfl _ encoded)

theorem Encodes.size_eq {memory : Memory} {address table : Nat} {inst : Instruction}
    {bytes : List UInt8} (h : Encodes memory address table inst bytes) :
    inst.size = bytes.length := by
  cases h with
  | intro _ _ size => exact size

/-! ### Type fields -/

theorem lists_iff {fields types : List OperandType} :
    Lists fields types ↔ types = fields.takeWhile (· ≠ .omitted) := by
  constructor
  · rintro ⟨given, listed⟩
    have kept : ∀ type ∈ types, decide (type ≠ OperandType.omitted) = true := by
      intro type member
      exact decide_eq_true fun eq => given (eq ▸ member)
    rcases listed with rfl | ⟨ignored, rfl⟩
    · have whole : (fields ++ []).takeWhile (· ≠ OperandType.omitted) = fields ++ [] :=
        List.takeWhile_append_of_pos kept
      rw [List.append_nil] at whole
      exact whole.symm
    · rw [List.takeWhile_append_of_pos kept, List.takeWhile_cons_of_neg (by simp), List.append_nil]
  · rintro rfl
    have whole : fields.takeWhile (· ≠ .omitted) ++ fields.dropWhile (· ≠ .omitted) = fields :=
      List.takeWhile_append_dropWhile
    constructor
    · intro member
      simpa using List.all_eq_true.mp List.all_takeWhile _ member
    · cases behind : fields.dropWhile (· ≠ .omitted) with
      | nil =>
        rw [behind, List.append_nil] at whole
        exact .inl whole.symm
      | cons type ignored =>
        have stops := List.head_dropWhile_not (· ≠ OperandType.omitted)
          (behind ▸ List.cons_ne_nil type ignored)
        simp only [behind, List.head_cons] at stops
        have omitted : type = .omitted := by simpa using stops
        rw [behind, omitted] at whole
        exact .inr ⟨ignored, whole.symm⟩

theorem typesOfByte_typeByte (a b c d : OperandType) :
    typesOfByte (typeByte a b c d) = [a, b, c, d].takeWhile (· ≠ .omitted) := by
  have ha := a.bits_lt
  have hb := b.bits_lt
  have hc := c.bits_lt
  have hd := d.bits_lt
  have value : (typeByte a b c d).toNat = a.bits * 64 + b.bits * 16 + c.bits * 4 + d.bits := by
    rw [typeByte, UInt8.toNat_ofNat']
    omega
  have fields : [(typeByte a b c d).toNat / 64, (typeByte a b c d).toNat / 16,
      (typeByte a b c d).toNat / 4, (typeByte a b c d).toNat].map OperandType.ofBits =
      [a, b, c, d] := by
    simp only [value, List.map_cons, List.map_nil, List.cons.injEq, and_true]
    refine ⟨?_, ?_, ?_, ?_⟩
    all_goals
      apply OperandType.ofBits_of_mod
      omega
  rw [typesOfByte, fields]

/-- Any byte is the byte of the types that stand for its fields. -/
theorem typeByte_ofBits (b : UInt8) :
    typeByte (.ofBits (b.toNat / 64)) (.ofBits (b.toNat / 16)) (.ofBits (b.toNat / 4))
      (.ofBits b.toNat) = b := by
  apply UInt8.toNat_inj.mp
  have bound := b.toNat_lt
  simp only [typeByte, OperandType.bits_ofBits, UInt8.toNat_ofNat']
  omega

/-! ### The opcode byte -/

theorem number_lt (op : Opcode) : op.number < 32 := by
  cases op <;> decide

theorem number_lt_of_op1 {op : Opcode} (count : op.count = .op1) : op.number < 16 := by
  revert count
  cases op <;> decide

/-- The number that the byte of an extended opcode would have is free. -/
theorem number_of_op0 {op : Opcode} (count : op.count = .op0) :
    op.number < 16 ∧ op.number ≠ 14 := by
  revert count
  cases op <;> decide

section OpcodeByte

variable {b : UInt8} {count : OperandCount} {number : Nat}

theorem splitOpcode_eq_long : splitOpcode b = (.long, count, number) ↔
    b.toNat < 0x80 ∧ count = .op2 ∧ number = b.toNat % 32 := by
  constructor
  · intro h
    simp only [splitOpcode] at h
    split at h
    · cases h
    · split at h
      · cases h
      · cases h
        exact ⟨by omega, rfl, rfl⟩
  · rintro ⟨range, rfl, rfl⟩
    simp only [splitOpcode]
    rw [if_neg (by omega), if_neg (by omega)]

theorem splitOpcode_eq_short : splitOpcode b = (.short, count, number) ↔
    0x80 ≤ b.toNat ∧ b.toNat < 0xC0 ∧ (count = if 0xB0 ≤ b.toNat then .op0 else .op1) ∧
      number = b.toNat % 16 := by
  constructor
  · intro h
    simp only [splitOpcode] at h
    split at h
    · cases h
    · split at h
      · next ge =>
        cases h
        exact ⟨ge, by omega, rfl, rfl⟩
      · cases h
  · rintro ⟨ge, lt, rfl, rfl⟩
    simp only [splitOpcode]
    rw [if_neg (by omega), if_pos ge]

theorem splitOpcode_eq_var : splitOpcode b = (.var, count, number) ↔
    0xC0 ≤ b.toNat ∧ (count = if b.toNat < 0xE0 then .op2 else .var) ∧ number = b.toNat % 32 := by
  constructor
  · intro h
    simp only [splitOpcode] at h
    split at h
    · next ge =>
      cases h
      exact ⟨ge, rfl, rfl⟩
    · split at h
      · cases h
      · cases h
  · rintro ⟨ge, rfl, rfl⟩
    simp only [splitOpcode]
    rw [if_pos ge]

theorem ne_extendedByte (h : b.toNat ≠ 0xBE) : b ≠ extendedByte := by
  rintro rfl
  exact h rfl

end OpcodeByte

section Opening

variable {op : Opcode} {form : InstructionForm} {types : List OperandType} {b : UInt8}
  {bytes behind : List UInt8}

theorem toNat_ofNat_of_lt {n : Nat} (h : n < 256) : (UInt8.ofNat n).toNat = n :=
  UInt8.toNat_ofNat_of_lt' h

theorem ofNat_of_toNat {n : Nat} (h : b.toNat = n) : UInt8.ofNat n = b := by
  rw [← h, UInt8.ofNat_toNat]

theorem beq_one_toNat (bit : Bool) : (bit.toNat == 1) = bit := by
  cases bit <;> rfl

theorem toNat_beq_one {n : Nat} (h : n < 2) : (n == 1).toNat = n := by
  match n, h with
  | 0, _ | 1, _ => rfl

theorem bits_lt_of_given {type : OperandType} (given : type ≠ .omitted) : type.bits < 3 := by
  cases type with
  | omitted => exact absurd rfl given
  | _ => decide

/-- An opening begins with a byte of the form, the class and the number of its opcode. -/
theorem Opening.first (h : Opening op form types bytes) :
    ∃ b behind, bytes = b :: behind ∧ b ≠ extendedByte ∧
      splitOpcode b = (form, op.count, op.number) := by
  have bound := number_lt op
  cases h with
  | long first second count =>
    have hf := first.toNat_lt
    have hs := second.toNat_lt
    have value := toNat_ofNat_of_lt (n := first.toNat * 64 + second.toNat * 32 + op.number)
      (by omega)
    refine ⟨_, _, rfl, ne_extendedByte (by omega), ?_⟩
    exact splitOpcode_eq_long.mpr ⟨by omega, count, by omega⟩
  | @short type count given =>
    have small := number_lt_of_op1 count
    have three := bits_lt_of_given given
    have value := toNat_ofNat_of_lt (n := 0x80 + type.bits * 16 + op.number) (by omega)
    refine ⟨_, _, rfl, ne_extendedByte (by omega), ?_⟩
    refine splitOpcode_eq_short.mpr ⟨by omega, by omega, ?_, by omega⟩
    rw [count, if_neg (by omega)]
  | bare count =>
    obtain ⟨small, free⟩ := number_of_op0 count
    have value := toNat_ofNat_of_lt (n := 0xB0 + op.number) (by omega)
    refine ⟨_, _, rfl, ne_extendedByte (by omega), ?_⟩
    refine splitOpcode_eq_short.mpr ⟨by omega, by omega, ?_, by omega⟩
    rw [count, if_pos (by omega)]
  | varTwo count lists =>
    have value := toNat_ofNat_of_lt (n := 0xC0 + op.number) (by omega)
    refine ⟨_, _, rfl, ne_extendedByte (by omega), splitOpcode_eq_var.mpr ⟨by omega, ?_, by omega⟩⟩
    rw [count, if_pos (by omega)]
  | var count lists =>
    have value := toNat_ofNat_of_lt (n := 0xE0 + op.number) (by omega)
    refine ⟨_, _, rfl, ne_extendedByte (by omega), splitOpcode_eq_var.mpr ⟨by omega, ?_, by omega⟩⟩
    rw [count, if_neg (by omega)]

/-- An opening gives a type for each operand. -/
theorem Opening.filter_eq (h : Opening op form types bytes) :
    types.filter (· ≠ .omitted) = types := by
  rw [List.filter_eq_self]
  intro type member
  apply decide_eq_true
  rintro rfl
  cases h with
  | long first second _ => cases first <;> cases second <;> simp [OperandType.oneByte] at member
  | short _ given => exact given (List.mem_singleton.mp member).symm
  | bare _ => cases member
  | varTwo _ lists => exact lists.1 member
  | var _ lists => exact lists.1 member

theorem Opening.of_op0 (h : Opening op form types bytes) (count : op.count = .op0) :
    types = [] ∧ bytes.length = 1 := by
  cases h with
  | bare _ => exact ⟨rfl, rfl⟩
  | long _ _ other => cases count.symm.trans other
  | short other _ => cases count.symm.trans other
  | varTwo other _ => cases count.symm.trans other
  | var other _ => cases count.symm.trans other

theorem opening_long_iff (parts : splitOpcode b = (.long, op.count, op.number)) :
    Opening op .long types (b :: behind) ↔
      types = [.oneByte (b.toNat / 64 % 2 == 1), .oneByte (b.toNat / 32 % 2 == 1)] ∧
        behind = [] := by
  obtain ⟨range, count, number⟩ := splitOpcode_eq_long.mp parts
  constructor
  · intro h
    cases h with
    | long first second _ =>
      have hf := first.toNat_lt
      have hs := second.toNat_lt
      have value := toNat_ofNat_of_lt (n := first.toNat * 64 + second.toNat * 32 + op.number)
        (by omega)
      have firstBit : (first.toNat * 64 + second.toNat * 32 + op.number) / 64 % 2 =
          first.toNat := by
        omega
      have secondBit : (first.toNat * 64 + second.toNat * 32 + op.number) / 32 % 2 =
          second.toNat := by
        omega
      rw [value, firstBit, secondBit, beq_one_toNat, beq_one_toNat]
      exact ⟨rfl, rfl⟩
  · rintro ⟨rfl, rfl⟩
    have h := Opening.long (b.toNat / 64 % 2 == 1) (b.toNat / 32 % 2 == 1) count
    rwa [toNat_beq_one (Nat.mod_lt _ (by decide)), toNat_beq_one (Nat.mod_lt _ (by decide)),
      ofNat_of_toNat (b := b) (by omega)] at h

theorem opening_short_iff (parts : splitOpcode b = (.short, op.count, op.number)) :
    Opening op .short types (b :: behind) ↔
      types = [OperandType.ofBits (b.toNat / 16)].filter (· ≠ .omitted) ∧ behind = [] := by
  obtain ⟨ge, lt, count, number⟩ := splitOpcode_eq_short.mp parts
  constructor
  · intro h
    cases h with
    | @short type one given =>
      have small := number_lt_of_op1 one
      have three := bits_lt_of_given given
      have value := toNat_ofNat_of_lt (n := 0x80 + type.bits * 16 + op.number) (by omega)
      have typed : OperandType.ofBits ((0x80 + type.bits * 16 + op.number) / 16) = type :=
        OperandType.ofBits_of_mod (by omega)
      rw [value, typed, List.filter_cons_of_pos (by simpa using given)]
      exact ⟨rfl, rfl⟩
    | bare none =>
      obtain ⟨small, -⟩ := number_of_op0 none
      have value := toNat_ofNat_of_lt (n := 0xB0 + op.number) (by omega)
      have omitted : OperandType.ofBits ((0xB0 + op.number) / 16) = .omitted :=
        OperandType.ofBits_of_mod (by simp only [OperandType.bits]; omega)
      rw [value, omitted]
      exact ⟨rfl, rfl⟩
  · rintro ⟨rfl, rfl⟩
    have bits := OperandType.bits_ofBits (b.toNat / 16)
    split at count
    · have omitted : OperandType.ofBits (b.toNat / 16) = .omitted :=
        OperandType.ofBits_of_mod (by simp only [OperandType.bits]; omega)
      have h := Opening.bare count
      rw [ofNat_of_toNat (b := b) (by omega)] at h
      rwa [omitted]
    · have given : OperandType.ofBits (b.toNat / 16) ≠ .omitted := by
        intro omitted
        rw [omitted, OperandType.bits] at bits
        omega
      have h := Opening.short count given
      rw [bits, ofNat_of_toNat (b := b) (by omega)] at h
      rwa [List.filter_cons_of_pos (by simpa using given)]

theorem opening_var_iff (parts : splitOpcode b = (.var, op.count, op.number)) :
    Opening op .var types (b :: behind) ↔ ∃ t, behind = [t] ∧ types = typesOfByte t := by
  obtain ⟨ge, count, number⟩ := splitOpcode_eq_var.mp parts
  have bound := b.toNat_lt
  constructor
  · intro h
    cases h with
    | varTwo _ lists => exact ⟨_, rfl, (lists_iff.mp lists).trans (typesOfByte_typeByte ..).symm⟩
    | var _ lists => exact ⟨_, rfl, (lists_iff.mp lists).trans (typesOfByte_typeByte ..).symm⟩
  · rintro ⟨t, rfl, rfl⟩
    have lists : Lists [.ofBits (t.toNat / 64), .ofBits (t.toNat / 16), .ofBits (t.toNat / 4),
        .ofBits t.toNat] (typesOfByte t) := lists_iff.mpr rfl
    split at count
    · have h := Opening.varTwo count lists
      rwa [typeByte_ofBits, ofNat_of_toNat (b := b) (by omega)] at h
    · have h := Opening.var count lists
      rwa [typeByte_ofBits, ofNat_of_toNat (b := b) (by omega)] at h

end Opening

/-! ### The bytes of a branch -/

/-- The number that fourteen bits stand for in two's complement. -/
def signedBits (n : Nat) : Int :=
  if n < 0x2000 then n else (n : Int) - 0x4000

theorem signedBits_of_range {offset : Int} (ge : -8192 ≤ offset) (le : offset ≤ 8191) :
    signedBits (offset % 0x4000).toNat = offset := by
  rw [signedBits]
  split <;> omega

theorem range_signedBits {n : Nat} (h : n < 0x4000) :
    -8192 ≤ signedBits n ∧ signedBits n ≤ 8191 ∧ (signedBits n % 0x4000).toNat = n := by
  rw [signedBits]
  split <;> omega

/-- The branch that a byte begins, with the second byte that it may call for. -/
theorem encodes_branch_iff {branch : Branch} {bytes : List UInt8} :
    branch.Encodes bytes ↔ ∃ first behind, bytes = first :: behind ∧
      if first.toNat / 64 % 2 = 1 then
        branch = { onTrue := first.toNat / 128 == 1, offset := first.toNat % 64 } ∧ behind = []
      else ∃ second : UInt8, behind = [second] ∧
        branch = {
          onTrue := first.toNat / 128 == 1
          offset := signedBits (first.toNat % 64 * 256 + second.toNat) } := by
  -- The second highest bit of the first byte says that there is no second byte.
  constructor
  · intro h
    cases h with
    | @oneByte onTrue offset le =>
      have bit := onTrue.toNat_lt
      have value := toNat_ofNat_of_lt (n := onTrue.toNat * 128 + 64 + offset) (by omega)
      have condition : (onTrue.toNat * 128 + 64 + offset) / 128 = onTrue.toNat := by omega
      refine ⟨_, _, rfl, ?_⟩
      rw [value, if_pos (by omega), condition, beq_one_toNat]
      refine ⟨?_, rfl⟩
      congr 1
      omega
    | @twoBytes onTrue offset ge le =>
      have bit := onTrue.toNat_lt
      have same := signedBits_of_range ge le
      have small : (offset % 0x4000).toNat < 0x4000 := by omega
      generalize (offset % 0x4000).toNat = n at same small
      have high := toNat_ofNat_of_lt (n := onTrue.toNat * 128 + n / 256) (by omega)
      have low : (UInt8.ofNat n).toNat = n % 256 := UInt8.toNat_ofNat'
      have condition : (onTrue.toNat * 128 + n / 256) / 128 = onTrue.toNat := by omega
      have whole : (onTrue.toNat * 128 + n / 256) % 64 * 256 + n % 256 = n := by omega
      refine ⟨_, _, rfl, ?_⟩
      rw [high, if_neg (by omega)]
      refine ⟨_, rfl, ?_⟩
      rw [low, condition, beq_one_toNat, whole, same]
  · rintro ⟨first, behind, rfl, h⟩
    have bound := first.toNat_lt
    have bit : (first.toNat / 128 == 1).toNat = first.toNat / 128 := toNat_beq_one (by omega)
    split at h
    · next short =>
      obtain ⟨rfl, rfl⟩ := h
      have h := @Branch.Encodes.oneByte (first.toNat / 128 == 1) (first.toNat % 64) (by omega)
      rwa [bit, ofNat_of_toNat (b := first) (by omega)] at h
    · next long =>
      obtain ⟨second, rfl, rfl⟩ := h
      have small := second.toNat_lt
      obtain ⟨ge, le, bits⟩ := range_signedBits
        (n := first.toNat % 64 * 256 + second.toNat) (by omega)
      have low : UInt8.ofNat (first.toNat % 64 * 256 + second.toNat) = second := by
        apply UInt8.toNat_inj.mp
        rw [UInt8.toNat_ofNat']
        omega
      have h := @Branch.Encodes.twoBytes (first.toNat / 128 == 1) _ ge le
      rwa [bits, bit, low, ofNat_of_toNat (b := first) (by omega)] at h

end Instruction

end ZMachine
