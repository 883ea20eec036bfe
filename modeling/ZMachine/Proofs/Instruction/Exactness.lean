import ZMachine.Proofs.Instruction.Parsing
import ZMachine.Proofs.ZString.Dependence
import ZMachine.Proofs.ZString.RoundTrip

/-!
# Decoding is exact

Instructions are read just where they have been written down (`decode_eq_ok_iff`), and what is
written down in one memory is so in every other with the same bytes in the `Footprint` of the
instruction (`Encodes.congr`). `decode_exact` puts both together.
-/

namespace ZMachine.Instruction

variable {memory other : Memory} {table : Nat}

/-- The address is that of a byte that the instruction depends on: one of its own or, if its opcode
calls for a text, one of an abbreviation in that text, which then stands right behind the opcode
byte. -/
def Footprint (memory : Memory) (address table : Nat) (inst : Instruction) (a : Nat) : Prop :=
  (address ≤ a ∧ a < address + inst.size) ∨
    inst.opcode.hasText ∧ ZString.Borrows memory (address + 1) table a

/-- Only opcodes without operands, store variable and branch have a text. -/
theorem plain_of_hasText {op : Opcode} (h : op.hasText) :
    op.count = .op0 ∧ op.storesResult = false ∧ op.hasBranch = false := by
  revert h
  cases op <;> decide

theorem TextAt.congr {address : Nat} {text : String} {bytes : List UInt8}
    (h : TextAt memory address table text bytes) (size : other.size = memory.size)
    (own : ∀ a, address ≤ a → a < address + bytes.length → other.byte a = memory.byte a)
    (borrowed : ∀ a, ZString.Borrows memory address table a → other.byte a = memory.byte a) :
    TextAt other address table text bytes := by
  obtain ⟨⟨ws, runs, rfl⟩, read⟩ := h
  rw [Word.length_flatMap_bytes] at own
  have words : ZString.words memory address = ws :=
    (ZString.words_eq_iff runs.stored.start_le).mpr runs
  refine ⟨⟨ws, runs.congr size own, rfl⟩, ?_⟩
  rw [ZString.decode_congr size _ borrowed, read]
  rintro a ⟨ge, lt⟩
  rw [words] at lt
  exact own a ge lt

theorem Encodes.congr {address : Nat} {inst : Instruction} {bytes : List UInt8}
    (h : Encodes memory address table inst bytes) (size : other.size = memory.size)
    (same : ∀ a, Footprint memory address table inst a → other.byte a = memory.byte a) :
    Encodes other address table inst bytes := by
  obtain @⟨opening, _, opens, @⟨store, branch, text, stores, branches, reads⟩, length⟩ := h
  refine .intro opens (.intro stores branches (reads.imp fun called told read => ?_)) length
  obtain ⟨op0, noStore, noBranch⟩ := plain_of_hasText called
  obtain ⟨none, one⟩ := opens.of_op0 op0
  rw [noStore] at stores
  rw [noBranch] at branches
  have nothing : (inst.operands.flatMap Operand.bytes ++ store ++ branch).length = 0 := by
    rw [List.map_eq_nil_iff.mp none, stores.of_false.2, branches.of_false.2]
    rfl
  rw [one, nothing] at read ⊢
  apply read.congr size
  · intro a ge lt
    refine same a (.inl ⟨by omega, ?_⟩)
    rw [length, List.length_append, List.length_append]
    omega
  · intro a borrows
    exact same a (.inr ⟨called, borrows⟩)

/-- Decoding accepts just the instruction format: it gives an instruction where bytes stand that
are a way to write it down, and where it gives one, those bytes stand within memory and nothing else
matters but the abbreviations in the text of the instruction. -/
theorem decode_exact (memory : Memory) (address table : Nat) (inst : Instruction) :
    (∀ bytes, Encodes memory address table inst bytes → memory.Holds address bytes →
      decode memory address table = .ok inst) ∧
    (decode memory address table = .ok inst →
      address + inst.size ≤ memory.size ∧
        Encodes memory address table inst (memory.bytes address inst.size) ∧
        ∀ other : Memory, other.size = memory.size →
          (∀ a, Footprint memory address table inst a → other.byte a = memory.byte a) →
          decode other address table = .ok inst) := by
  constructor
  · intro bytes encodes held
    exact decode_eq_ok_iff.mpr ⟨bytes, encodes, held⟩
  · intro decoded
    obtain ⟨bytes, encodes, held⟩ := decode_eq_ok_iff.mp decoded
    have size := encodes.size_eq
    refine ⟨size ▸ held.le_size, ?_, ?_⟩
    · rw [size, held.2]
      exact encodes
    · intro other sameSize same
      refine decode_eq_ok_iff.mpr ⟨bytes, encodes.congr sameSize same, held.congr sameSize ?_⟩
      intro a ge lt
      exact same a (.inl ⟨ge, size ▸ lt⟩)

/-- The text of the instruction in `printing`. -/
def tale : List ZString.Segment :=
  [.abbreviation ⟨0, by decide⟩ (ZChar.ofNat 0) "The ".toList, .plain "cat".toList]

/-- The entry of an abbreviation, the instruction `print` at address 2 with a text that begins with
it, a byte to spare, the text of the abbreviation, and another such byte. -/
def printing : Memory :=
  ([0, 4, 0xB2] ++ ZString.pack (tale.flatMap ZString.Segment.zchars) ++ [0xFF] ++
    ZString.encode "The ".toList ++ [0xFF]).toArray

def printed : Instruction where
  opcode := .print
  form := .short
  operands := []
  store := none
  branch := none
  text := some "The cat"
  size := 5

theorem words_tale :
    ZString.words printing 3 = ZString.packWords (tale.flatMap ZString.Segment.zchars) :=
  (ZString.words_eq_iff (by decide)).mpr (ZString.runs_packWords (by decide +kernel))

theorem words_abbreviation :
    ZString.words printing 8 = ZString.packWords (ZString.encodeChars "The ".toList) :=
  (ZString.words_eq_iff (by decide)).mpr (ZString.runs_packWords (by decide +kernel))

theorem textAt_printing : TextAt printing 3 0 "The cat" (printing.bytes 3 4) := by
  have listed : ∀ segment ∈ tale, segment.Listed printing 0 := by decide +kernel
  have stored : printing.Holds 3 (ZString.pack (tale.flatMap ZString.Segment.zchars)) := by
    decide +kernel
  refine ⟨⟨_, ZString.runs_packWords stored, by decide +kernel⟩, ?_⟩
  exact (ZString.decode_pack listed stored).trans (congrArg Except.ok (by decide +kernel))

theorem lt_of_borrows {a : Nat} (h : ZString.Borrows printing 3 0 a) : a < 12 := by
  obtain ⟨number, member, borrowed⟩ := h
  have only : ZString.references {} ((ZString.words printing 3).flatMap ZString.unpackWord) =
      [0] := by
    rw [words_tale]
    decide +kernel
  rw [only, List.mem_singleton] at member
  subst member
  rcases borrowed with rfl | rfl | ⟨-, lt⟩
  · decide
  · decide
  · have entry : (printing.word (0 + 0 * 2)).toNat * 2 = 8 := by decide +kernel
    have length : (ZString.packWords (ZString.encodeChars "The ".toList)).length = 2 := by
      decide +kernel
    rw [entry, words_abbreviation, length] at lt
    exact lt

/-- The instruction is decoded, also when the byte behind the abbreviation is another. -/
theorem decode_printing :
    decode printing 2 0 = .ok printed ∧ decode (printing.put 12 0) 2 0 = .ok printed := by
  have exact := decode_exact printing 2 0 printed
  have body : Body printing 3 0 printed ([] ++ [] ++ [] ++ printing.bytes 3 4) :=
    .intro .absent .absent (.present textAt_printing)
  have encodes : Encodes printing 2 0 printed ([0xB2] ++ ([] ++ [] ++ [] ++ printing.bytes 3 4)) :=
    .intro (.bare rfl) body (by decide +kernel)
  have decoded := exact.1 _ encodes (by decide +kernel)
  refine ⟨decoded, (exact.2 decoded).2.2 _ (Memory.size_put ..) fun a touched => ?_⟩
  have below : a < 12 := by
    rcases touched with ⟨-, lt⟩ | ⟨-, borrows⟩
    · have size : printed.size = 5 := rfl
      omega
    · exact lt_of_borrows borrows
  rw [Memory.byte_put, if_neg (by omega)]

end ZMachine.Instruction
