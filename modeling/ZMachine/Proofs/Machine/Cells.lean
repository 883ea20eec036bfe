import ZMachine.Proofs.Machine.Routine
import ZMachine.Proofs.Machine.Write
import ZMachine.Proofs.Memory

/-!
# Variables as cells

A variable is the top of the evaluation stack, a local of the routine or a word of memory. Writing
one in place changes just that (`writeInPlace_eq_ok`), so that it reads as what was written and
every other variable as before (`SetsCell`). Variables that are written and read otherwise follow
the same laws but for variable 0, where a value that has been pushed is popped again
(`cells_of_write`).
-/

namespace ZMachine.Machine

variable {m m' : Machine} {number w : UInt8} {value : UInt16}

def withMemory (m : Machine) (memory : Memory) : Machine :=
  { m with memory }

/-- What an operation answers, whatever state it leaves. -/
def answer {α : Type} (operation : MachineM α) (m : Machine) : Except MachineError α :=
  match operation m with
  | .ok a _ => .ok a
  | .error e _ => .error e

/-- What a variable reads as once a value has been written to it: a local that the routine has not
declared is still zero. -/
def kept (m : Machine) (number : UInt8) (value : UInt16) : UInt16 :=
  if number < 16 ∧ m.frames.innermost.locals.length < number.toNat then 0 else value

/-- A value can be written in place: there is a top of the stack, or the word of a global lies in
dynamic memory. -/
def Takes (m : Machine) (number : UInt8) : Prop :=
  (number = 0 → m.stack ≠ []) ∧ (16 ≤ number → m.globalAddress number + 1 < m.dynamicSize)

/-- The value of a variable has been put in its place. -/
inductive Puts (value : UInt16) (m : Machine) : UInt8 → Machine → Prop
  | top {old : UInt16} {rest : List UInt16} (stack : m.stack = old :: rest) :
      Puts value m 0 (m.withStack (value :: rest))
  | slot {number : UInt8} (positive : number ≠ 0) (isLocal : number < 16) :
      Puts value m number
        (m.withLocals (m.frames.innermost.locals.set (number.toNat - 1) value))
  | word {number : UInt8} (isGlobal : 16 ≤ number)
      (dynamic : m.globalAddress number + 1 < m.dynamicSize)
      (inside : m.globalAddress number + 1 < m.memory.size) :
      Puts value m number
        (m.withMemory (m.memory.putBytes (m.globalAddress number) (Word.bytes value)))

/-- Nothing has changed but, perhaps, the variable: the stack is the same below its top, there are
as many locals, and memory is the same outside the word of a global. -/
structure SameElsewhere (number : UInt8) (m m' : Machine) : Prop extends SameRoutine m m' where
  depth_eq : m'.stack.length = m.stack.length
  below_eq : m'.stack.tail = m.stack.tail
  locals_eq : m'.frames.innermost.locals.length = m.frames.innermost.locals.length
  size_eq : m'.memory.size = m.memory.size
  byte_eq : ∀ address,
    (16 ≤ number → address ≠ m.globalAddress number ∧ address ≠ m.globalAddress number + 1) →
      m'.memory.byte address = m.memory.byte address

/-- One variable reads as what has been written to it, and every other one as before. -/
structure SetsCell (read : UInt8 → Machine → Except MachineError UInt16) (number : UInt8)
    (value : UInt16) (m m' : Machine) : Prop extends SameElsewhere number m m' where
  read_eq : ∀ w, read w m' = if w = number then .ok (m.kept number value) else read w m

/-! ### Numbers of variables -/

theorem ne_zero_of_global (isGlobal : 16 ≤ number) : number ≠ 0 := by
  rintro rfl
  exact absurd isGlobal (by decide)

theorem kept_of_global (isGlobal : 16 ≤ number) : m.kept number value = value :=
  if_neg fun undeclared => UInt8.not_lt.mpr isGlobal undeclared.1

/-- The words of two globals do not overlap. -/
theorem globalAddress_apart (first : 16 ≤ number) (second : 16 ≤ w) (ne : w ≠ number) :
    m.globalAddress w + 2 ≤ m.globalAddress number ∨
      m.globalAddress number + 2 ≤ m.globalAddress w := by
  have first : 16 ≤ number.toNat := UInt8.le_iff_toNat_le.mp first
  have second : 16 ≤ w.toNat := UInt8.le_iff_toNat_le.mp second
  have ne : w.toNat ≠ number.toNat := fun eq => ne (UInt8.toNat_inj.mp eq)
  simp only [globalAddress]
  omega

/-! ### Reading -/

theorem readInPlace_local (positive : w ≠ 0) (isLocal : w < 16) :
    m.readInPlace w = .ok (m.frames.innermost.locals.getD (w.toNat - 1) 0) := by
  rw [readInPlace, if_neg positive, if_pos isLocal, readLocal,
    if_neg (toNat_ne_zero_of_ne positive)]

theorem readInPlace_global (isGlobal : 16 ≤ w) :
    m.readInPlace w = .ok (m.memory.word (m.globalAddress w)) := by
  have notLocal : ¬ w < 16 := UInt8.not_lt.mpr isGlobal
  rw [readInPlace, if_neg (ne_zero_of_global isGlobal), if_neg notLocal, readGlobal_eq,
    if_neg notLocal, wordAt, if_pos (m.globalAddress_lt w)]

theorem answer_query {α : Type} (f : Machine → Except MachineError α) (m : Machine) :
    answer (query f) m = f m := by
  rw [answer, query]
  cases f m <;> rfl

/-- Popping the stack answers what it has on top. -/
theorem answer_pop (m : Machine) : answer pop m = m.peek := by
  rw [answer, pop, peek]
  cases m.stack <;> rfl

theorem answer_readVariable (w : UInt8) (m : Machine) :
    answer (readVariable w) m = m.readInPlace w := by
  rw [readVariable, readInPlace]
  split
  · exact answer_pop m
  · split <;> exact answer_query _ m

theorem readVariable_of_ne (ne : number ≠ 0) :
    readVariable number = query (readInPlace number) := by
  funext m
  rw [readVariable, if_neg ne]
  by_cases isLocal : number < 16
  · rw [if_pos isLocal, query, query, readInPlace, if_neg ne, if_pos isLocal]
  · rw [if_neg isLocal, query, query, readInPlace, if_neg ne, if_neg isLocal]

theorem eq_of_query {α : Type} {f : Machine → Except MachineError α} {a : α}
    (h : query f m = .ok a m') : m' = m :=
  (query_eq_ok.mp h).2

/-! ### Writing -/

/-- What a variable that has been written in place has become. -/
theorem writeInPlace_eq_ok : writeInPlace number value m = .ok () m' ↔ Puts value m number m' := by
  constructor
  · intro h
    rw [writeInPlace] at h
    split at h
    · next zero =>
      subst zero
      rw [replaceTop] at h
      split at h
      · cases h
      · next old rest stack =>
        cases h
        exact .top stack
    · next positive =>
      split at h
      · next isLocal =>
        rw [writeLocal, if_neg (toNat_ne_zero_of_ne positive)] at h
        cases h
        exact .slot positive isLocal
      · next notLocal =>
        rw [writeGlobal_eq, get_bind, if_neg notLocal] at h
        have dynamic := (eq_of_writeWord h).1
        obtain ⟨⟨⟩, mid, high, low⟩ := bind_eq_ok.mp h
        obtain ⟨-, rfl⟩ := eq_of_writeByte high
        obtain ⟨inside, rfl⟩ := eq_of_writeByte low
        rw [withByte, Memory.size_put] at inside
        exact .word (UInt8.not_lt.mp notLocal) dynamic inside
  · intro h
    cases h with
    | top stack => rw [writeInPlace, if_pos rfl, replaceTop, stack]
    | slot positive isLocal =>
      rw [writeInPlace, if_neg positive, if_pos isLocal, writeLocal,
        if_neg (toNat_ne_zero_of_ne positive)]
    | word isGlobal dynamic inside =>
      have notLocal : ¬ number < 16 := UInt8.not_lt.mpr isGlobal
      rw [writeInPlace, if_neg (ne_zero_of_global isGlobal), if_neg notLocal, writeGlobal_eq,
        get_bind, if_neg notLocal, writeWord_of_lt dynamic inside]
      rfl

theorem sameElsewhere_of_puts (h : Puts value m number m') : SameElsewhere number m m' := by
  cases h with
  | top stack =>
    refine ⟨(SameRoutine.refl m).withStack _, ?_, ?_, rfl, rfl, fun _ _ => rfl⟩
    · rw [stack]
      rfl
    · rw [stack]
      rfl
  | slot =>
    exact ⟨⟨rfl, rfl, rfl, rfl, rfl⟩, rfl, rfl, List.length_set, rfl, fun _ _ => rfl⟩
  | word isGlobal =>
    refine ⟨⟨rfl, rfl, rfl, rfl, rfl⟩, rfl, rfl, rfl, Memory.size_putBytes _ _ _, ?_⟩
    intro address outside
    have outside := outside isGlobal
    apply Memory.byte_putBytes_of_outside
    simp only [Word.bytes, List.length_cons, List.length_nil]
    omega

/-- A local that has been set. One that is not there stays zero. -/
theorem getD_set_self (locals : List UInt16) (i : Nat) :
    (locals.set i value).getD i 0 = if i < locals.length then value else 0 := by
  rw [List.getD_eq_getElem?_getD, List.getElem?_set_self']
  split
  · next declared => rw [List.getElem?_eq_getElem declared]; rfl
  · next undeclared => rw [List.getElem?_eq_none (Nat.le_of_not_lt undeclared)]; rfl

theorem readInPlace_of_puts (h : Puts value m number m') :
    m'.readInPlace number = .ok (m.kept number value) := by
  cases h with
  | top stack => rfl
  | slot positive isLocal =>
    have counted := toNat_ne_zero_of_ne positive
    rw [readInPlace_local positive isLocal]
    show Except.ok ((m.frames.innermost.locals.set (number.toNat - 1) value).getD _ 0) = _
    rw [getD_set_self, kept]
    split
    · next declared => rw [if_neg fun undeclared => by omega]
    · next undeclared => rw [if_pos ⟨isLocal, by omega⟩]
  | word isGlobal dynamic inside =>
    have held : (m.memory.putBytes (m.globalAddress number) (Word.bytes value)).Holds
        (m.globalAddress number) (Word.bytes value ++ []) := by
      rw [List.append_nil]
      exact Memory.holds_putBytes inside
    rw [readInPlace_global isGlobal, kept_of_global isGlobal]
    exact congrArg Except.ok (Memory.holds_word.mp held).2.1

theorem readInPlace_of_puts_of_ne (h : Puts value m number m') (ne : w ≠ number) :
    m'.readInPlace w = m.readInPlace w := by
  cases h with
  | top => rw [readInPlace, readInPlace, if_neg ne, if_neg ne]; rfl
  | slot positive isLocal =>
    by_cases zero : w = 0
    · rw [readInPlace, readInPlace, if_pos zero, if_pos zero]
      rfl
    · by_cases other : w < 16
      · have apart : number.toNat - 1 ≠ w.toNat - 1 := by
          have counted := toNat_ne_zero_of_ne positive
          have counted' := toNat_ne_zero_of_ne zero
          have ne : w.toNat ≠ number.toNat := fun eq => ne (UInt8.toNat_inj.mp eq)
          omega
        rw [readInPlace_local zero other, readInPlace_local zero other]
        show Except.ok ((m.frames.innermost.locals.set (number.toNat - 1) value).getD _ 0) = _
        rw [List.getD_eq_getElem?_getD, List.getElem?_set_ne apart, List.getD_eq_getElem?_getD]
      · rw [readInPlace_global (UInt8.not_lt.mp other), readInPlace_global (UInt8.not_lt.mp other)]
        rfl
  | word isGlobal =>
    by_cases other : 16 ≤ w
    · have apart := globalAddress_apart (m := m) isGlobal other ne
      have width : (Word.bytes value).length = 2 := rfl
      rw [readInPlace_global other, readInPlace_global other]
      show Except.ok ((m.memory.putBytes (m.globalAddress number) (Word.bytes value)).word
        (m.globalAddress w)) = _
      rw [Memory.word, Memory.byte_putBytes_of_outside _ _ _ _ (by omega),
        Memory.byte_putBytes_of_outside _ _ _ _ (by omega), Memory.word]
    · have isLocal := UInt8.not_le.mp other
      rw [readInPlace, readInPlace, if_pos isLocal, if_pos isLocal]
      rfl

theorem setsCell_of_puts (h : Puts value m number m') : SetsCell readInPlace number value m m' where
  toSameElsewhere := sameElsewhere_of_puts h
  read_eq w := by
    split
    · next same => rw [same, readInPlace_of_puts h]
    · next ne => exact readInPlace_of_puts_of_ne h ne

theorem SetsCell.answer (h : SetsCell readInPlace number value m m') :
    SetsCell (fun w => answer (readVariable w)) number value m m' where
  toSameElsewhere := h.toSameElsewhere
  read_eq w := by
    rw [answer_readVariable, answer_readVariable]
    exact h.read_eq w

/-! ### When writing succeeds -/

theorem writeInPlace_of_empty (empty : m.stack = []) :
    writeInPlace 0 value m = .error (.stackUnderflow m.pc) m := by
  rw [writeInPlace, if_pos rfl, replaceTop, empty]

/-- A global that lies outside dynamic memory with both its bytes is not written at all. -/
theorem writeGlobal_of_le (isGlobal : 16 ≤ number)
    (static : m.dynamicSize ≤ m.globalAddress number) :
    writeGlobal number value m = .error (.writeOutside (m.globalAddress number)) m := by
  have addressable := m.globalAddress_lt number
  rw [writeGlobal_eq, get_bind, if_neg (UInt8.not_lt.mpr isGlobal), writeWord]
  exact bind_of_error (writeByte_of_le static (by omega))

theorem writeInPlace_global (isGlobal : 16 ≤ number) :
    writeInPlace number value = writeGlobal number value := by
  rw [writeInPlace, if_neg (ne_zero_of_global isGlobal), if_neg (UInt8.not_lt.mpr isGlobal)]

theorem writeVariable_of_ne (ne : number ≠ 0) :
    writeVariable number value = writeInPlace number value := by
  rw [writeVariable, writeInPlace, if_neg ne, if_neg ne]

theorem takes_of_puts (h : Puts value m number m') : m.Takes number := by
  cases h with
  | top stack =>
    refine ⟨fun _ empty => ?_, fun isGlobal => absurd isGlobal (by decide)⟩
    rw [empty] at stack
    cases stack
  | slot positive isLocal =>
    exact ⟨fun zero => absurd zero positive,
      fun isGlobal => absurd isLocal (UInt8.not_lt.mpr isGlobal)⟩
  | word isGlobal dynamic =>
    exact ⟨fun zero => absurd zero (ne_zero_of_global isGlobal), fun _ => dynamic⟩

theorem exists_puts (sized : m.dynamicSize ≤ m.memory.size) (takes : m.Takes number) :
    ∃ m', Puts value m number m' := by
  by_cases zero : number = 0
  · subst zero
    obtain ⟨old, rest, stack⟩ := List.exists_cons_of_ne_nil (takes.1 rfl)
    exact ⟨_, .top stack⟩
  · by_cases isLocal : number < 16
    · exact ⟨_, .slot zero isLocal⟩
    · have isGlobal := UInt8.not_lt.mp isLocal
      have dynamic := takes.2 isGlobal
      exact ⟨_, .word isGlobal dynamic (Nat.lt_of_lt_of_le dynamic sized)⟩

/-- A variable can be written in place when it takes a value, and only then. -/
theorem writeInPlace_succeeds_iff (sized : m.dynamicSize ≤ m.memory.size) :
    (∃ m', writeInPlace number value m = .ok () m') ↔ m.Takes number := by
  constructor
  · rintro ⟨m', run⟩
    exact takes_of_puts (writeInPlace_eq_ok.mp run)
  · intro takes
    obtain ⟨m', puts⟩ := exists_puts sized takes
    exact ⟨m', writeInPlace_eq_ok.mpr puts⟩

/-- What has been pushed is popped again, and the machine is as it was. -/
theorem pop_of_push (h : writeVariable 0 value m = .ok () m') :
    readVariable 0 m' = .ok value m := by
  rw [writeVariable, if_pos rfl, push] at h
  split at h
  · cases h
  · cases h
    rfl

/-! ### The laws -/

/-- Variables are independent cells. One that has been written in place reads as what was written,
unless it is a local that the routine has not declared; all others read as before, and nothing else
has changed. Writing into an empty stack, or to a global outside dynamic memory, fails and changes
nothing. But for variable 0, writing and reading a variable is the same as doing so in place; for
variable 0 a value that is pushed is popped again, and looking at it there leaves the machine
alone. -/
theorem cells_of_write (number : UInt8) (value : UInt16) (m : Machine) :
    (∀ m', writeInPlace number value m = .ok () m' → SetsCell readInPlace number value m m') ∧
    (m.dynamicSize ≤ m.memory.size →
      ((∃ m', writeInPlace number value m = .ok () m') ↔ m.Takes number)) ∧
    (number = 0 → m.stack = [] → writeInPlace number value m = .error (.stackUnderflow m.pc) m) ∧
    (16 ≤ number → m.dynamicSize ≤ m.globalAddress number →
      writeInPlace number value m = .error (.writeOutside (m.globalAddress number)) m ∧
      writeVariable number value m = .error (.writeOutside (m.globalAddress number)) m) ∧
    (number ≠ 0 →
      (∀ m', writeVariable number value m = .ok () m' →
        SetsCell (fun w => answer (readVariable w)) number value m m') ∧
      ∀ a m', readVariable number m = .ok a m' → m' = m) ∧
    (∀ m', writeVariable 0 value m = .ok () m' → readVariable 0 m' = .ok value m) ∧
    ∀ a m', query (readInPlace 0) m = .ok a m' → m' = m := by
  have sets (m') (run : writeInPlace number value m = .ok () m') :
      SetsCell readInPlace number value m m' := setsCell_of_puts (writeInPlace_eq_ok.mp run)
  refine ⟨sets, writeInPlace_succeeds_iff, ?_, ?_, ?_, fun _ => pop_of_push, fun _ _ => eq_of_query⟩
  · rintro rfl empty
    exact writeInPlace_of_empty empty
  · intro isGlobal static
    rw [writeVariable_of_ne (ne_zero_of_global isGlobal), writeInPlace_global isGlobal]
    exact ⟨writeGlobal_of_le isGlobal static, writeGlobal_of_le isGlobal static⟩
  · intro ne
    rw [writeVariable_of_ne ne, readVariable_of_ne ne]
    exact ⟨fun m' run => (sets m' run).answer, fun _ _ => eq_of_query⟩

/-- A routine with one local and a value on its stack, over a story whose globals lie at 0x40. -/
def smallRoutine : Machine :=
  let image : Memory := Memory.putBytes (Array.replicate 160 0) 0x0C [0, 0x40, 0, 0x46]
  let innermost : Frame := { returnPc := 0, store := none, locals := [3], stack := [5] }
  { start { image, header := Header.ofMemory image } with
    frames := { innermost, callers := [.topLevel] } }

/-- A global keeps what is written to it, a local that is not declared does not, and the others
stay; the globals end where dynamic memory does. -/
theorem cells_smallRoutine :
    (∃ m', writeInPlace 0x12 0xBEEF smallRoutine = .ok () m' ∧
      m'.readInPlace 0x12 = .ok 0xBEEF ∧ m'.readInPlace 0x11 = .ok 0 ∧
      m'.readInPlace 0 = .ok 5 ∧ m'.readInPlace 1 = .ok 3) ∧
    (∃ m', writeInPlace 2 7 smallRoutine = .ok () m' ∧ m'.readInPlace 2 = .ok 0) ∧
    writeInPlace 0x13 1 smallRoutine = .error (.writeOutside 0x46) smallRoutine ∧
    writeInPlace 0 1 (smallRoutine.withStack []) =
      .error (.stackUnderflow smallRoutine.pc) (smallRoutine.withStack []) ∧
    ∃ m', writeVariable 0 7 smallRoutine = .ok () m' ∧
      readVariable 0 m' = .ok 7 smallRoutine := by
  obtain ⟨setGlobal, succeeds, -⟩ := cells_of_write 0x12 0xBEEF smallRoutine
  obtain ⟨setLocal, -⟩ := cells_of_write 2 7 smallRoutine
  obtain ⟨-, -, -, outside, -⟩ := cells_of_write 0x13 1 smallRoutine
  obtain ⟨-, -, empty, -⟩ := cells_of_write 0 1 (smallRoutine.withStack [])
  obtain ⟨-, -, -, -, -, popped, -⟩ := cells_of_write 0 7 smallRoutine
  have address : smallRoutine.globalAddress 0x13 = 0x46 := by decide +kernel
  have static : smallRoutine.dynamicSize = 0x46 := by decide +kernel
  have zero : smallRoutine.memory.word (smallRoutine.globalAddress 0x11) = 0 := by decide +kernel
  have untouched : smallRoutine.readInPlace 0x11 = .ok 0 := by
    rw [readInPlace_global (by decide), zero]
  rw [address, static] at outside
  refine ⟨?_, ⟨_, rfl, (setLocal _ rfl).read_eq 2⟩, (outside (by decide) (Nat.le_refl _)).1,
    empty rfl rfl, _, rfl, popped _ rfl⟩
  obtain ⟨m', run⟩ := (succeeds (by decide +kernel)).mpr ⟨by decide, fun _ => by decide +kernel⟩
  have cells := (setGlobal m' run).read_eq
  have beside : m'.readInPlace 0x11 = .ok 0 := by rw [cells, if_neg (by decide), untouched]
  exact ⟨m', run, cells 0x12, beside, cells 0, cells 1⟩

end ZMachine.Machine
