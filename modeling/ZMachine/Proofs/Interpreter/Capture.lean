import ZMachine.Proofs.Interpreter.Reachable
import ZMachine.Proofs.Interpreter.Redirection

/-!
# Output to tables

While a table is selected, nothing that a story prints is shown. A sequence of calls that succeeds
does to the interpreter what is to come of it (`Redirection.applied`): one call after the other, the
count in memory is that of the characters which the table has got, and the end of dynamic memory
stops the output before an address could wrap around (`captured_of_performAll`).
-/

namespace ZMachine.Interpreter

/-! ### Writing a table -/

section Table

variable {m m' : Machine} {table count : UInt16} {written n : Nat} {text : List Char}
  {selection : Selection}

/-- By induction on the text: each character is written before the last address, so that the next
slot follows it. -/
theorem eq_of_writeTable (near : table.toNat + 2 + (count.toNat + written) ≤ m.dynamicSize)
    (run : writeTable table count written text m = .ok n m') :
    n = written + text.length ∧ table.toNat + 2 + (count.toNat + n) ≤ m.dynamicSize ∧
      m' = { m with
        memory := m.memory.putBytes (table.toNat + 2 + (count.toNat + written))
          (tableCodes text) } := by
  induction text generalizing m written with
  | nil =>
    cases run
    exact ⟨rfl, near, rfl⟩
  | cons c rest ih =>
    obtain ⟨⟨⟩, mid, first, others⟩ := bind_eq_ok.mp run
    have slot : tableSlot table (count.toNat + written) =
        table.toNat + 2 + (count.toNat + written) :=
      Nat.mod_eq_of_lt (Nat.lt_of_le_of_lt near m.dynamicSize_lt)
    rw [slot] at first
    have dynamic := Machine.lt_of_writeByte first
    obtain ⟨-, rfl⟩ := Machine.eq_of_writeByte first
    obtain ⟨next, mid', counted, others⟩ := bind_eq_ok.mp others
    obtain ⟨one_more, rfl⟩ := Machine.query_eq_ok.mp counted
    obtain ⟨-, rfl⟩ := sized_eq_ok.mp one_more
    obtain ⟨n_eq, fits, rfl⟩ := ih dynamic others
    refine ⟨?_, fits, rfl⟩
    rw [n_eq, List.length_cons]
    omega

/-- What is printed to a selection goes behind the text that it has, and is counted with it. -/
theorem eq_of_appendToTable (holds : m.memory.Holds selection.table.toNat selection.bytes)
    (near : selection.stop ≤ m.dynamicSize)
    (run : appendToTable selection.table text m = .ok () m') :
    selection.stop + text.length ≤ m.dynamicSize ∧
      m' = { m with
        memory := (m.memory.putBytes selection.stop (tableCodes text)).putBytes
          selection.table.toNat (selection.append text).count } := by
  obtain ⟨count, mid, asked, writing⟩ := bind_eq_ok.mp run
  obtain ⟨found, rfl⟩ := Machine.query_eq_ok.mp asked
  obtain ⟨n, mid', wrote, counting⟩ := bind_eq_ok.mp writing
  have few : selection.text.length < 0x10000 := by
    have bound := mid.dynamicSize_lt
    rw [Selection.stop] at near
    omega
  have count_eq : count = .ofNat selection.text.length := by
    obtain ⟨-, word, -⟩ := Memory.holds_word.mp holds
    rw [Machine.wordAt, word] at found
    split at found
    · cases found
      rfl
    · cases found
  have count_toNat : count.toNat = selection.text.length := by
    rw [count_eq, UInt16.toNat_ofNat']
    exact Nat.mod_eq_of_lt few
  have stop_eq : selection.table.toNat + 2 + (count.toNat + 0) = selection.stop := by
    rw [count_toNat]
    rfl
  obtain ⟨rfl, fits, rfl⟩ := eq_of_writeTable (stop_eq ▸ near) wrote
  obtain ⟨-, rfl⟩ := Machine.eq_of_writeWord counting
  rw [stop_eq]
  constructor
  · rw [count_toNat] at fits
    rw [Selection.stop]
    omega
  · rw [count_eq, Nat.zero_add, ← UInt16.ofNat_add, Selection.count, Selection.append,
      List.length_append]

end Table

/-! ### Calls of an interpreter -/

variable {H : Type} [Host H] {image base : Memory} {s u : Interpreter H} {r : Redirection}
  {call : OutputCall} {calls : List OutputCall}

def OutputCall.perform : OutputCall → Play H Unit
  | select table => selectStream 3 (some table)
  | deselect => selectStream (-3) none
  | print text => output text

def performAll : List OutputCall → Play H Unit
  | [] => pure ()
  | call :: rest => do
    call.perform
    performAll rest

/-- The host is shown a text; an empty one is no text. -/
def display (host : H) (shown : List Char × Bool) : H :=
  if shown.1 = [] then host else Host.print host (String.ofList shown.1) shown.2

/-- The interpreter once all that comes of some calls has been done. -/
def Redirection.applied (r : Redirection) (s : Interpreter H) : Interpreter H :=
  { s with
    machine := { s.machine with memory := r.memory }
    host := r.shown.foldl display s.host
    streams := { s.streams with tables := r.active.map (·.table) } }

theorem applied_of_select {table : UInt16}
    (run : (OutputCall.select table).perform (r.applied s) = .ok () u) :
    table.toNat + 2 ≤ s.machine.dynamicSize ∧ u = (r.select table).applied s := by
  obtain ⟨streams, mid, chosen, run⟩ := bind_eq_ok.mp run
  cases chosen
  split at run
  · cases run
  · obtain ⟨⟨⟩, opened, wrote, run⟩ := bind_eq_ok.mp run
    obtain ⟨m, emptied, rfl⟩ := onMachine_eq_ok.mp wrote
    obtain ⟨fits, rfl⟩ := Machine.eq_of_writeWord emptied
    cases run
    exact ⟨fits, rfl⟩

theorem applied_of_deselect (run : OutputCall.deselect.perform (r.applied s) = .ok () u) :
    u = r.deselect.applied s := by
  cases run
  cases active : r.active <;>
    simp only [Redirection.deselect, Redirection.applied, active, List.map_nil, List.map_cons,
      List.tail_nil, List.tail_cons]

/-- A text that is shown is not redirected, and goes to the transcript as memory says. -/
theorem applied_of_show {text : List Char} (screen : s.streams.screen = true)
    (active : r.active = []) (run : (OutputCall.print text).perform (r.applied s) = .ok () u) :
    u = (r.print text).applied s := by
  obtain ⟨streams, mid, chosen, run⟩ := bind_eq_ok.mp run
  cases chosen
  have none : (r.applied s).streams.tables = [] := by
    simp only [Redirection.applied, active, List.map_nil]
  have on : (r.applied s).streams.screen = true := screen
  have printed : (r.print text).applied s =
      { r.applied s with
        host := display (r.applied s).host (text, Redirection.transcribes r.memory) } := by
    simp only [Redirection.print, Redirection.applied, active, List.foldl_append, List.foldl_cons,
      List.foldl_nil, List.map_nil]
  rw [printed, display]
  simp only [none, on] at run
  by_cases empty : text = []
  · rw [if_neg (fun both => both.2 empty)] at run
    cases run
    rw [if_pos empty]
  · rw [if_pos ⟨trivial, empty⟩] at run
    obtain ⟨transcript, mid', asked, told⟩ := bind_eq_ok.mp run
    obtain ⟨found, rfl⟩ := ask_eq_ok.mp asked
    cases found
    cases told
    rw [if_neg empty]
    rfl

/-- A text that is redirected goes to the innermost table alone. -/
theorem applied_of_redirect {text : List Char} {innermost : Selection} {outer : List Selection}
    (laid : r.Laid base s.machine.dynamicSize) (active : r.active = innermost :: outer)
    (run : (OutputCall.print text).perform (r.applied s) = .ok () u) :
    innermost.stop + text.length ≤ s.machine.dynamicSize ∧ u = (r.print text).applied s := by
  obtain ⟨streams, mid, chosen, run⟩ := bind_eq_ok.mp run
  cases chosen
  have tables : (r.applied s).streams.tables = innermost.table :: outer.map (·.table) := by
    simp only [Redirection.applied, active, List.map_cons]
  have member : innermost ∈ r.selections := by
    rw [Redirection.selections_of_active active]
    exact List.mem_cons_self
  simp only [tables] at run
  obtain ⟨m, wrote, rfl⟩ := onMachine_eq_ok.mp run
  obtain ⟨fits, rfl⟩ := eq_of_appendToTable (m := (r.applied s).machine)
    (laid.holds innermost member) (laid.below innermost member) wrote
  refine ⟨fits, ?_⟩
  simp only [Redirection.print, Redirection.applied, active, List.map_cons, Selection.append]

/-- One call does what is to come of it, as long as no two selections meet. -/
theorem applied_of_perform (screen : s.streams.screen = true)
    (room : s.machine.dynamicSize ≤ base.size) (laid : r.Laid base s.machine.dynamicSize)
    (disjoint : (r.follow call).Disjoint) (run : call.perform (r.applied s) = .ok () u) :
    u = (r.follow call).applied s ∧ (r.follow call).Laid base s.machine.dynamicSize := by
  cases call with
  | select table =>
    obtain ⟨fits, eq⟩ := applied_of_select run
    exact ⟨eq, laid.select room fits disjoint⟩
  | deselect => exact ⟨applied_of_deselect run, laid.deselect⟩
  | print text =>
    cases active : r.active with
    | nil =>
      exact ⟨applied_of_show screen active run, laid.show active⟩
    | cons innermost outer =>
      obtain ⟨fits, eq⟩ := applied_of_redirect laid active run
      exact ⟨eq, laid.print active room fits disjoint⟩

/-- By induction on the calls: what has come of those before is what the next one finds. -/
theorem applied_of_performAll (screen : s.streams.screen = true)
    (room : s.machine.dynamicSize ≤ base.size) (laid : r.Laid base s.machine.dynamicSize)
    (disjoint : (calls.foldl Redirection.follow r).Disjoint)
    (run : performAll calls (r.applied s) = .ok () u) :
    u = (calls.foldl Redirection.follow r).applied s ∧
      (calls.foldl Redirection.follow r).Laid base s.machine.dynamicSize := by
  induction calls generalizing r with
  | nil =>
    cases run
    exact ⟨rfl, laid⟩
  | cons call rest ih =>
    obtain ⟨⟨⟩, mid, first, others⟩ := bind_eq_ok.mp run
    have after : (rest.foldl Redirection.follow (r.follow call)).Disjoint := disjoint
    obtain ⟨rfl, laid'⟩ := applied_of_perform screen room laid after.of_calls first
    exact ih laid' after others

/-- Calls that select and deselect tables and print, from the screen on, and that all succeed: if
the selections do not overlap, the interpreter has done what is to come of the calls and nothing
else. So the host is shown what was printed while no table was selected, and each table begins with
the number of the characters that were printed while it was the innermost one, which follow it in
their codes. No address has wrapped around, and no other byte has changed. -/
theorem captured_of_performAll (reachable : Reachable image s) (screen : s.streams.screen = true)
    (unselected : s.streams.tables = []) (run : performAll calls s = .ok () u)
    (disjoint : (Redirection.ofCalls s.machine.memory calls).Disjoint) :
    let r := Redirection.ofCalls s.machine.memory calls
    u = r.applied s ∧
      (∀ selection ∈ r.selections,
        selection.stop ≤ s.machine.dynamicSize ∧ selection.stop < 0x10000 ∧
          (u.machine.memory.word selection.table.toNat).toNat = selection.text.length ∧
          u.machine.memory.Holds (selection.table.toNat + 2) (tableCodes selection.text)) ∧
      ∀ address, (∀ selection ∈ r.selections, ¬ selection.Covers address) →
        u.machine.memory.byte address = s.machine.memory.byte address := by
  intro r
  obtain ⟨story, -, hs, sound⟩ := reachable.sound
  have start : (Redirection.start s.machine.memory).applied s = s := by
    rw [Redirection.applied, Redirection.start, List.map_nil, ← unselected]
    rfl
  obtain ⟨eq, laid⟩ : u = r.applied s ∧ r.Laid s.machine.memory s.machine.dynamicSize :=
    applied_of_performAll screen (sound.machine.dynamic_le hs)
      (Redirection.laid_start s.machine.memory s.machine.dynamicSize) disjoint (start.symm ▸ run)
  have memory : u.machine.memory = r.memory := by
    rw [eq]
    rfl
  rw [memory]
  refine ⟨eq, fun selection member => ?_, laid.elsewhere⟩
  have below := laid.below selection member
  have narrow := s.machine.dynamicSize_lt
  obtain ⟨-, counted, text⟩ := Memory.holds_word.mp (laid.holds selection member)
  refine ⟨below, by omega, ?_, text⟩
  rw [counted, UInt16.toNat_ofNat']
  refine Nat.mod_eq_of_lt ?_
  rw [Selection.stop] at below
  omega

/-- A table that is selected inside another one, and text for both and for the screen. -/
def nestedCalls : List OutputCall :=
  [.print ['a'], .select 0x20, .print ['b', 'c'], .select 0x2A, .print ['é', '→'], .deselect,
    .print ['d'], .deselect, .print ['e']]

theorem smallStart_captured :
    let u := after (performAll nestedCalls) smallStart
    let r := Redirection.ofCalls smallStart.machine.memory nestedCalls
    performAll nestedCalls smallStart = .ok () u ∧ r.Disjoint ∧ u = r.applied smallStart ∧
      r.shown = [(['a'], false), (['e'], false)] ∧
      r.past = [⟨0x20, ['b', 'c', 'd']⟩, ⟨0x2A, ['é', '→']⟩] ∧
      (u.machine.memory.word 0x20).toNat = 3 ∧
      u.machine.memory.Holds 0x2C [170, 63] := by
  intro u r
  have run : performAll nestedCalls smallStart = .ok () u := eq_ok_of_result (by decide +kernel)
  have past : r.past = [⟨0x20, ['b', 'c', 'd']⟩, ⟨0x2A, ['é', '→']⟩] := by decide +kernel
  have active : r.active = [] := by decide +kernel
  have disjoint : r.Disjoint := by decide +kernel
  obtain ⟨eq, tables, -⟩ :=
    captured_of_performAll reachable_smallStart rfl rfl run disjoint
  have selections : r.selections = [⟨0x20, ['b', 'c', 'd']⟩, ⟨0x2A, ['é', '→']⟩] := by
    rw [Redirection.selections, active, past, List.nil_append]
  rw [selections] at tables
  obtain ⟨first, others⟩ := List.forall_mem_cons.mp tables
  obtain ⟨second, -⟩ := List.forall_mem_cons.mp others
  exact ⟨run, disjoint, eq, by decide +kernel, past, first.2.2.1, second.2.2.2⟩

end ZMachine.Interpreter
