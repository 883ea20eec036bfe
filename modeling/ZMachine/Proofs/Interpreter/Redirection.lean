import ZMachine.Interpreter.Output
import ZMachine.Proofs.Memory

/-!
# Text that is redirected to tables

A story selects tables, prints, and deselects the innermost table again. What has to come of such
calls is said here without a machine: each selection collects what is printed while it is the
innermost one, and only what is printed while there is none is shown (`Redirection.follow`). If the
stretches that the selections take up do not overlap, each of them stands in memory in the end, its
count before its characters, and all other bytes are what they were (`Redirection.Laid`).
-/

namespace ZMachine.Interpreter

/-- A table that has been selected, with the text that has been printed to it. -/
structure Selection where
  table : UInt16
  text : List Char
  deriving DecidableEq, Repr

/-- The codes of characters in a table; a question mark stands for those without a code. -/
def tableCodes (text : List Char) : List UInt8 :=
  text.map fun c => .ofNat (Zscii.ofChar c)

theorem length_tableCodes (text : List Char) : (tableCodes text).length = text.length :=
  List.length_map _

namespace Selection

/-- The address behind the last character. -/
def stop (selection : Selection) : Nat :=
  selection.table.toNat + 2 + selection.text.length

/-- The address belongs to the count or the characters. -/
def Covers (selection : Selection) (address : Nat) : Prop :=
  selection.table.toNat ≤ address ∧ address < selection.stop

/-- The count of characters, as it stands at the beginning of the table. -/
def count (selection : Selection) : List UInt8 :=
  Word.bytes (.ofNat selection.text.length)

def bytes (selection : Selection) : List UInt8 :=
  selection.count ++ tableCodes selection.text

/-- The two take up different stretches of memory. -/
def Apart (a b : Selection) : Prop :=
  a.stop ≤ b.table.toNat ∨ b.stop ≤ a.table.toNat

instance (a b : Selection) : Decidable (Apart a b) :=
  inferInstanceAs (Decidable (_ ∨ _))

def append (selection : Selection) (text : List Char) : Selection :=
  { selection with text := selection.text ++ text }

variable {a b : Selection} {text : List Char}

theorem length_count (selection : Selection) : selection.count.length = 2 := rfl

theorem length_bytes (selection : Selection) :
    selection.bytes.length = 2 + selection.text.length := by
  rw [bytes, List.length_append, length_count, length_tableCodes]

@[simp] theorem table_append (selection : Selection) (text : List Char) :
    (selection.append text).table = selection.table := rfl

theorem stop_append (selection : Selection) (text : List Char) :
    (selection.append text).stop = selection.stop + text.length := by
  simp only [stop, append, List.length_append]
  omega

theorem Apart.symm (h : Apart a b) : Apart b a :=
  Or.symm h

theorem Apart.of_append (h : Apart (a.append text) b) : Apart a b := by
  rw [Apart, stop_append] at h
  simp only [Apart, append] at h ⊢
  omega

end Selection

/-- What a story does with its output. -/
inductive OutputCall where
  | select (table : UInt16)
  | deselect
  | print (text : List Char)

/-- What has come of some calls. -/
structure Redirection where
  memory : Memory
  /-- The selected tables, the innermost first. -/
  active : List Selection
  /-- The tables that have been deselected. -/
  past : List Selection
  /-- The texts that have been shown, and whether they went to the transcript, too. -/
  shown : List (List Char × Bool)

namespace Redirection

/-- Nothing has been called. -/
def start (memory : Memory) : Redirection :=
  { memory, active := [], past := [], shown := [] }

def transcribes (memory : Memory) : Bool :=
  memory.word Header.flags2Address &&& 1 != 0

def select (r : Redirection) (table : UInt16) : Redirection :=
  let selection : Selection := { table, text := [] }
  { r with
    memory := r.memory.putBytes table.toNat selection.count
    active := selection :: r.active }

def deselect (r : Redirection) : Redirection :=
  match r.active with
  | [] => r
  | innermost :: outer => { r with active := outer, past := innermost :: r.past }

/-- The innermost table gets the text behind what it has, and a new count. -/
def print (r : Redirection) (text : List Char) : Redirection :=
  match r.active with
  | [] => { r with shown := r.shown ++ [(text, transcribes r.memory)] }
  | innermost :: outer =>
    let filled := innermost.append text
    { r with
      memory :=
        (r.memory.putBytes innermost.stop (tableCodes text)).putBytes
          filled.table.toNat filled.count
      active := filled :: outer }

def follow (r : Redirection) : OutputCall → Redirection
  | .select table => r.select table
  | .deselect => r.deselect
  | .print text => r.print text

def ofCalls (memory : Memory) (calls : List OutputCall) : Redirection :=
  calls.foldl follow (start memory)

/-- All selections there have been. -/
def selections (r : Redirection) : List Selection :=
  r.active ++ r.past

/-- No two selections take up the same byte. -/
def Disjoint (r : Redirection) : Prop :=
  r.selections.Pairwise Selection.Apart

instance (r : Redirection) : Decidable r.Disjoint :=
  inferInstanceAs (Decidable (List.Pairwise _ _))

/-- Every selection stands in memory below a limit, and the rest of memory is as it was. -/
structure Laid (base : Memory) (limit : Nat) (r : Redirection) : Prop where
  size_eq : r.memory.size = base.size
  below : ∀ selection ∈ r.selections, selection.stop ≤ limit
  holds : ∀ selection ∈ r.selections,
    r.memory.Holds selection.table.toNat selection.bytes
  elsewhere : ∀ address, (∀ selection ∈ r.selections, ¬ selection.Covers address) →
    r.memory.byte address = base.byte address

variable {r : Redirection} {base : Memory} {limit : Nat} {table : UInt16} {text : List Char}
  {innermost : Selection} {outer : List Selection} {call : OutputCall}

/-! ### The selections only grow -/

theorem selections_of_active (active : r.active = innermost :: outer) :
    r.selections = innermost :: (outer ++ r.past) := by
  rw [selections, active, List.cons_append]

theorem perm_deselect (r : Redirection) : r.deselect.selections.Perm r.selections := by
  cases active : r.active with
  | nil => simp only [deselect, active, List.Perm.refl]
  | cons innermost outer =>
    rw [selections_of_active active]
    simp only [deselect, active, selections]
    exact List.perm_middle

theorem selections_print (active : r.active = innermost :: outer) (text : List Char) :
    (r.print text).selections = innermost.append text :: (outer ++ r.past) := by
  simp only [print, active, selections, List.cons_append]

/-- Selections that are disjoint after a call have been so before. -/
theorem Disjoint.of_follow (h : (r.follow call).Disjoint) : r.Disjoint := by
  cases call with
  | select table => exact (List.pairwise_cons.mp h).2
  | deselect => exact ((perm_deselect r).pairwise_iff Selection.Apart.symm).mp h
  | print text =>
    cases active : r.active with
    | nil =>
      simpa only [follow, print, active, Disjoint, selections] using h
    | cons innermost outer =>
      rw [Disjoint, follow, selections_print active] at h
      rw [Disjoint, selections_of_active active]
      obtain ⟨first, others⟩ := List.pairwise_cons.mp h
      exact List.pairwise_cons.mpr ⟨fun b member => (first b member).of_append, others⟩

theorem Disjoint.of_calls {calls : List OutputCall} (h : (calls.foldl follow r).Disjoint) :
    r.Disjoint := by
  induction calls generalizing r with
  | nil => exact h
  | cons call rest ih => exact (ih h).of_follow

/-! ### The selections in memory -/

theorem laid_start (base : Memory) (limit : Nat) : (start base).Laid base limit where
  size_eq := rfl
  below _ member := nomatch member
  holds _ member := nomatch member
  elsewhere _ _ := rfl

/-- What is written outside a selection leaves it in memory. -/
theorem holds_of_outside {memory : Memory} {address : Nat} {values : List UInt8}
    {selection : Selection} (h : memory.Holds selection.table.toNat selection.bytes)
    (outside : address + values.length ≤ selection.table.toNat ∨ selection.stop ≤ address) :
    (memory.putBytes address values).Holds selection.table.toNat selection.bytes := by
  refine h.putBytes ?_
  rw [Selection.length_bytes]
  rw [Selection.stop] at outside
  omega

theorem Laid.select (h : r.Laid base limit) (room : limit ≤ base.size)
    (fits : table.toNat + 2 ≤ limit) (disjoint : (r.select table).Disjoint) :
    (r.select table).Laid base limit := by
  obtain ⟨apart, -⟩ := List.pairwise_cons.mp disjoint
  have inside : table.toNat + 2 ≤ r.memory.size := by
    rw [h.size_eq]
    omega
  refine ⟨(Memory.size_putBytes _ _ _).trans h.size_eq, ?_, ?_, fun address uncovered => ?_⟩
  · exact List.forall_mem_cons.mpr ⟨fits, h.below⟩
  · refine List.forall_mem_cons.mpr ⟨Memory.holds_putBytes inside, fun selection member => ?_⟩
    exact holds_of_outside (h.holds selection member) (apart selection member)
  · obtain ⟨new, old⟩ := List.forall_mem_cons.mp uncovered
    rw [← h.elsewhere address old]
    refine Memory.byte_putBytes_of_outside _ _ _ _ ?_
    rw [Selection.length_count]
    simp only [Selection.Covers, Selection.stop, List.length_nil] at new
    omega

theorem Laid.deselect (h : r.Laid base limit) : r.deselect.Laid base limit := by
  have members (selection : Selection) :
      selection ∈ r.deselect.selections ↔ selection ∈ r.selections :=
    (perm_deselect r).mem_iff
  have memory : r.deselect.memory = r.memory := by
    rw [Redirection.deselect]
    split <;> rfl
  refine ⟨memory ▸ h.size_eq, fun selection member => ?_, fun selection member => ?_,
    fun address uncovered => ?_⟩
  · exact h.below selection ((members selection).mp member)
  · rw [memory]
    exact h.holds selection ((members selection).mp member)
  · rw [memory]
    exact h.elsewhere address fun selection member =>
      uncovered selection ((members selection).mpr member)

/-- A text that is shown is in no table. -/
theorem Laid.show (h : r.Laid base limit) (active : r.active = []) :
    (r.print text).Laid base limit := by
  have memory : (r.print text).memory = r.memory := by simp only [Redirection.print, active]
  have selections : (r.print text).selections = r.selections := by
    simp only [Redirection.print, active, Redirection.selections]
  exact ⟨memory ▸ h.size_eq, selections ▸ h.below, by rw [memory, selections]; exact h.holds,
    by rw [memory, selections]; exact h.elsewhere⟩

/-- A selection that is filled up stands in memory with its new text. -/
theorem holds_append_text {memory : Memory} {selection : Selection}
    (h : memory.Holds selection.table.toNat selection.bytes)
    (inside : selection.stop + text.length ≤ memory.size) :
    ((memory.putBytes selection.stop (tableCodes text)).putBytes selection.table.toNat
      (selection.append text).count).Holds selection.table.toNat
        (selection.append text).bytes := by
  obtain ⟨-, old⟩ := Memory.holds_append.mp h
  have codes : tableCodes (selection.text ++ text) =
      tableCodes selection.text ++ tableCodes text := List.map_append
  rw [Selection.length_count] at old
  rw [Selection.bytes, Selection.append, codes, Memory.holds_append, Memory.holds_append,
    Selection.length_count, length_tableCodes]
  rw [← length_tableCodes text] at inside
  have behind : selection.table.toNat + 2 + selection.text.length = selection.stop := rfl
  refine ⟨Memory.holds_putBytes ?_, (old.putBytes ?_).putBytes ?_,
    (Memory.holds_putBytes inside).putBytes ?_⟩
  all_goals
    simp only [Memory.size_putBytes, Selection.length_count, length_tableCodes]
    omega

/-- The innermost selection has got more text, and the others have kept theirs. -/
theorem Laid.print (h : r.Laid base limit) (active : r.active = innermost :: outer)
    (room : limit ≤ base.size) (fits : innermost.stop + text.length ≤ limit)
    (disjoint : (r.print text).Disjoint) : (r.print text).Laid base limit := by
  rw [Disjoint, selections_print active] at disjoint
  obtain ⟨apart, -⟩ := List.pairwise_cons.mp disjoint
  have memory_eq : (r.print text).memory =
      (r.memory.putBytes innermost.stop (tableCodes text)).putBytes
        innermost.table.toNat (innermost.append text).count := by
    simp only [Redirection.print, active, Selection.append]
  have inside : innermost.stop + text.length ≤ r.memory.size := by
    rw [h.size_eq]
    omega
  obtain ⟨size_eq, below, holds, elsewhere⟩ := h
  rw [selections_of_active active] at below holds elsewhere
  obtain ⟨-, below⟩ := List.forall_mem_cons.mp below
  obtain ⟨own, holds⟩ := List.forall_mem_cons.mp holds
  refine ⟨?_, ?_, ?_, fun address uncovered => ?_⟩
  · rw [memory_eq, Memory.size_putBytes, Memory.size_putBytes, size_eq]
  · rw [selections_print active]
    refine List.forall_mem_cons.mpr ⟨?_, below⟩
    rw [Selection.stop_append]
    exact fits
  · rw [selections_print active, memory_eq]
    refine List.forall_mem_cons.mpr ⟨holds_append_text own inside, fun selection member => ?_⟩
    have beside := apart selection member
    rw [Selection.Apart, Selection.stop_append, Selection.table_append] at beside
    have start_le : innermost.table.toNat + 2 ≤ innermost.stop := Nat.le_add_right _ _
    refine holds_of_outside (holds_of_outside (holds selection member) ?_) ?_
    · rw [length_tableCodes]
      omega
    · rw [Selection.length_count]
      omega
  · rw [selections_print active] at uncovered
    obtain ⟨new, old⟩ := List.forall_mem_cons.mp uncovered
    rw [Selection.Covers, Selection.stop_append, Selection.table_append] at new
    have start_le : innermost.table.toNat + 2 ≤ innermost.stop := Nat.le_add_right _ _
    rw [← elsewhere address (List.forall_mem_cons.mpr ⟨?_, old⟩), memory_eq,
      Memory.byte_putBytes_of_outside, Memory.byte_putBytes_of_outside]
    · rw [length_tableCodes]
      omega
    · rw [Selection.length_count]
      omega
    · rw [Selection.Covers]
      omega

end Redirection

end ZMachine.Interpreter
