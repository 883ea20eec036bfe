import ZMachine.Proofs.Interpreter.Capture
import ZMachine.Proofs.ZString.Coded

/-!
# Text that is stored again

Text that a story prints comes from strings in memory, and may be redirected to a table or encoded
anew. As all its characters have codes, nothing of it is lost on the way: the codes in the table are
those of the characters (`text_of_output`), and the new string is read as the same text. What is
read from a string, whatever bytes it is made of, is therefore stable (`recoded_of_decode`).
-/

namespace ZMachine.Interpreter

variable {H : Type} [Host H] {memory : Memory} {s u : Interpreter H} {selection : Selection}
  {outer : List UInt16} {text : List Char}

/-- Codes in a table show the text that was printed, with question marks for characters without
codes. -/
theorem text_tableCodes (text : List Char) :
    Zscii.text (tableCodes text) = text.map Zscii.shown := by
  have narrow (c : Char) : (UInt8.ofNat (Zscii.ofChar c)).toNat = Zscii.ofChar c := by
    have bound := Zscii.ofChar_lt c
    rw [UInt8.toNat_ofNat']
    omega
  rw [Zscii.text, tableCodes, List.filterMap_map, ← List.filterMap_eq_map]
  congr 1
  funext c
  rw [Function.comp_apply, Function.comp_apply, narrow, Zscii.toChar?_ofChar]

/-- Text that is printed while a table is selected can be read off behind what the table has had. -/
theorem text_of_output (room : s.machine.dynamicSize ≤ s.machine.memory.size)
    (selected : s.streams.tables = selection.table :: outer)
    (holds : s.machine.memory.Holds selection.table.toNat selection.bytes)
    (near : selection.stop ≤ s.machine.dynamicSize) (run : output text s = .ok () u) :
    Zscii.text (u.machine.memory.bytes selection.stop text.length) = text.map Zscii.shown := by
  obtain ⟨streams, mid, chosen, printing⟩ := bind_eq_ok.mp run
  cases chosen
  simp only [selected] at printing
  obtain ⟨m, wrote, rfl⟩ := onMachine_eq_ok.mp printing
  obtain ⟨fits, rfl⟩ := eq_of_appendToTable holds near wrote
  have filled := Redirection.holds_append_text holds (Nat.le_trans fits room)
  have codes : tableCodes (selection.text ++ text) =
      tableCodes selection.text ++ tableCodes text := List.map_append
  rw [Selection.bytes, Selection.append, codes] at filled
  obtain ⟨-, behind⟩ := Memory.holds_append.mp filled
  obtain ⟨-, stands⟩ := Memory.holds_append.mp behind
  have read := stands.2
  rw [Selection.length_count, length_tableCodes, length_tableCodes] at read
  exact (congrArg Zscii.text read).trans (text_tableCodes text)

/-- Text that is read from a string, whatever its bytes are, needs no question mark for any of its
characters: each has a code of its own. So what a story finds in a table to which it is printed is
that text, and a string to which it is encoded is read as that text again. -/
theorem recoded_of_decode {address abbreviations length : Nat}
    (h : ZString.decode memory address abbreviations = .ok (text, length)) :
    (∀ c ∈ text, Zscii.ofChar? c = some (Zscii.ofChar c)) ∧
      (∀ {H : Type} [Host H] {s u : Interpreter H} {selection : Selection} {outer : List UInt16},
        s.machine.dynamicSize ≤ s.machine.memory.size →
        s.streams.tables = selection.table :: outer →
        s.machine.memory.Holds selection.table.toNat selection.bytes →
        selection.stop ≤ s.machine.dynamicSize → output text s = .ok () u →
          Zscii.text (u.machine.memory.bytes selection.stop text.length) = text) ∧
      ∀ (other : Memory) (place table : Nat), other.Holds place (ZString.encode text) →
        ZString.decode other place table = .ok (text, (ZString.encode text).length) := by
  have coded := ZString.coded_of_decode h
  refine ⟨fun c member => ?_, fun room selected holds near run => ?_,
    fun other place table stored => ?_⟩
  · obtain ⟨code, known⟩ := Option.isSome_iff_exists.mp (coded c member)
    rw [Zscii.ofChar, known, Option.getD_some]
  · exact (text_of_output room selected holds near run).trans coded.map_shown
  · have reads : ZString.Reads (.ok (ZString.expand other table place)) (ZString.encodeChars text)
        (text.map Zscii.shown) := ZString.reads_encodeChars text
    rw [coded.map_shown] at reads
    exact reads.decodeWith_eq stored

/-- A string without an end, in which an alphabet is locked, an abbreviation stands for a text, a
code has no character, and an escape is cut off. Before it stand the table of abbreviations and the
text of the fourth one. -/
def scribbled : Memory :=
  let word (a b c : Nat) : List UInt8 :=
    Word.bytes (ZString.packWord false (.ofNat a) (.ofNat b) (.ofNat c))
  ([0, 0, 0, 0, 0, 0, 0, 4] ++ ZString.encode "The ".toList ++ word 4 4 7 ++ word 5 8 6 ++
    word 1 3 5 ++ word 6 31 31 ++ word 5 6 7).toArray

/-- The state after a table has been selected. -/
def selecting : Interpreter Scripted :=
  after (selectStream 3 (some 0x20)) smallStart

theorem recoded_scribbled :
    let text := "B0AThe ?".toList
    let selection : Selection := { table := 0x20, text := [] }
    let u := after (output text) selecting
    ZString.decode scribbled 12 0 = .ok (text, 10) ∧ selecting.streams.tables = [0x20] ∧
      output text selecting = .ok () u ∧
      Zscii.text (u.machine.memory.bytes selection.stop text.length) = text ∧
      ZString.decode (ZString.encode text).toArray 0 0 =
        .ok (text, (ZString.encode text).length) := by
  intro text selection u
  have read : ZString.decode scribbled 12 0 = .ok (text, 10) := by decide +kernel
  have selected : selecting.streams.tables = selection.table :: [] := by decide +kernel
  have printed : output text selecting = .ok () u := eq_ok_of_result (by decide +kernel)
  obtain ⟨-, captured, recoded⟩ := recoded_of_decode read
  have shown : Zscii.text (u.machine.memory.bytes selection.stop text.length) = text :=
    captured (by decide +kernel) selected (by decide +kernel) (by decide +kernel)
      printed
  exact ⟨read, selected, printed, shown, recoded _ 0 0 (Memory.holds_toArray _)⟩

end ZMachine.Interpreter
