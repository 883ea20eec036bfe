import ZMachine.Host.Scripted
import ZMachine.Host.Terminal
import ZMachine.Proofs.Interpreter.Companions

/-!
# What a terminal shows of a game

`Recorded` is a scripted host that also notes what becomes visible of it, in order: the text that it
is given, the lines that it takes and the status lines. Noting this is of no consequence (`Records`).
The terminal gives the same lines to a story that neither saves nor restores, and has written out
what has been noted (`Mimics`): if there is no screen, text and lines, each line with a line end
(`Recorded.shownOn_eq_echoed`), and on a screen text and status lines.
-/

namespace ZMachine

/-- Something that becomes visible of a host. -/
inductive Entry where
  | text (given : String)
  /-- A line that was taken, as it was before it was cut. -/
  | line (given : String)
  /-- A status line, and how many there had been. -/
  | status (before : Nat) (location : String) (given : Status)
  deriving DecidableEq, Repr

namespace Entry

/-- Text as it is, and lines with a line end. -/
def echoed : Entry → String
  | text given => given
  | line given => given ++ "\n"
  | status _ _ _ => ""

/-- The entry as a terminal writes it. Where somebody sees lines being typed, they are not
written. -/
def shownOn (screen : Screen) (config : TerminalConfig) : Entry → String
  | text given => given
  | line given => if screen.interactive then "" else given ++ "\n"
  | status before location given =>
    if screen.shows config then screen.draw before location given else ""

def printed : Entry → String
  | text given => given
  | line _ => ""
  | status _ _ _ => ""

def taken : Entry → List String
  | text _ => []
  | line given => [given]
  | status _ _ _ => []

theorem shownOn_eq_echoed {screen : Screen} (piped : screen.interactive = false)
    (config : TerminalConfig) (entry : Entry) : entry.shownOn screen config = entry.echoed := by
  cases entry with
  | text given => rfl
  | line given => rw [shownOn, piped]; rfl
  | status before location given => rw [shownOn, Screen.shows, piped, Bool.and_false]; rfl

end Entry

/-- A scripted host and what has become visible of it, the latest last. -/
structure Recorded where
  host : Scripted
  entries : List Entry := []
  /-- Status lines among the entries. -/
  updates : Nat := 0
  deriving DecidableEq, Repr

namespace Recorded

def note (r : Recorded) (entry : Entry) : Recorded :=
  { r with entries := r.entries ++ [entry] }

/-- All text and all lines. -/
def echoed (r : Recorded) : String :=
  String.join (r.entries.map Entry.echoed)

/-- All that a terminal writes. -/
def shownOn (screen : Screen) (config : TerminalConfig) (r : Recorded) : String :=
  String.join (r.entries.map (Entry.shownOn screen config))

/-- The text alone. -/
def printed (r : Recorded) : String :=
  String.join (r.entries.map Entry.printed)

/-- The lines alone. -/
def taken (r : Recorded) : List String :=
  r.entries.flatMap Entry.taken

variable {r : Recorded} {entry : Entry} {screen : Screen} {config : TerminalConfig}

theorem shownOn_eq_echoed (piped : screen.interactive = false) :
    r.shownOn screen config = r.echoed := by
  rw [shownOn, echoed, funext (Entry.shownOn_eq_echoed piped config)]

@[simp] theorem shownOn_note :
    (r.note entry).shownOn screen config =
      r.shownOn screen config ++ entry.shownOn screen config := by
  simp [shownOn, note]

@[simp] theorem printed_note : (r.note entry).printed = r.printed ++ entry.printed := by
  simp [printed, note]

@[simp] theorem taken_note : (r.note entry).taken = r.taken ++ entry.taken := by
  simp [taken, note]

end Recorded

instance : Host Recorded where
  print r text transcript :=
    { r with host := Host.print r.host text transcript }.note (.text text)
  read r length :=
    match r.host.inputs with
    | [] => (none, r)
    | line :: _ =>
      ((Host.read r.host length).1,
        { r with host := (Host.read r.host length).2 }.note (.line line))
  save r bytes := ((Host.save r.host bytes).1, { r with host := (Host.save r.host bytes).2 })
  restore r := ((Host.restore r.host).1, { r with host := (Host.restore r.host).2 })
  restarted r := { r with host := Host.restarted r.host }
  updateStatus r location status :=
    { r with
      host := Host.updateStatus r.host location status
      updates := r.updates + 1 }.note (.status r.updates location status)
  selectWindow r window := { r with host := Host.selectWindow r.host window }
  splitWindow r height := { r with host := Host.splitWindow r.host height }
  supportsSplit r := Host.supportsSplit r.host
  setFixedPitch r fixedPitch := { r with host := Host.setFixedPitch r.host fixedPitch }

namespace Recorded

variable {r : Recorded}

theorem read_of_nil (inputs : r.host.inputs = []) (length : Nat) :
    Host.read r length = (none, r) := by
  simp only [Host.read, inputs]

theorem read_of_cons {line : String} {rest : List String} (inputs : r.host.inputs = line :: rest)
    (length : Nat) :
    Host.read r length = (some (cutLine line length),
      { r with host := { r.host with inputs := rest } }.note (.line line)) := by
  simp only [Host.read, inputs]

end Recorded

/-! ### The record is of no consequence -/

open Interpreter

/-- The second host is the first one with a record of what has become visible of it. -/
structure Records (lines : List String) (host : Scripted) (r : Recorded) : Prop where
  host_eq : r.host = host
  /-- The text is all of the output. -/
  printed_eq : r.printed = host.output
  /-- The lines are those that the host no longer has. -/
  taken_eq : r.taken ++ host.inputs = lines

variable {lines : List String}

/-- Nothing has to be noted of a host that neither prints nor takes a line. -/
theorem Records.silent {host : Scripted} {r : Recorded} (h : Records lines host r)
    (change : Scripted → Scripted) (output : (change host).output = host.output)
    (inputs : (change host).inputs = host.inputs) :
    Records lines (change host) { r with host := change r.host } where
  host_eq := congrArg change h.host_eq
  printed_eq := h.printed_eq.trans output.symm
  taken_eq := inputs ▸ h.taken_eq

/-- What is noted of a host that takes no line is the text that it puts out. -/
theorem Records.noted {host : Scripted} {r : Recorded} (h : Records lines host r)
    (change : Scripted → Scripted) (updates : Nat) {entry : Entry} (untaken : entry.taken = [])
    (output : (change host).output = host.output ++ entry.printed)
    (inputs : (change host).inputs = host.inputs) :
    Records lines (change host) ({ r with host := change r.host, updates }.note entry) where
  host_eq := congrArg change h.host_eq
  printed_eq := by
    rw [Recorded.printed_note, output, ← h.printed_eq]
    rfl
  taken_eq := by
    rw [Recorded.taken_note, untaken, List.append_nil, inputs]
    exact h.taken_eq

theorem answering_records : Answering (Records lines) where
  tell {host r} notice h := by
    cases notice with
    | print text transcript =>
      exact h.noted (Host.print · text transcript) r.updates rfl rfl rfl
    | updateStatus name status =>
      exact h.noted (Host.updateStatus · name status) (r.updates + 1) rfl
        String.append_empty.symm rfl
    | setFixedPitch on => exact h.silent (Host.setFixedPitch · on) rfl rfl
    | splitWindow height => exact h.silent (Host.splitWindow · height) rfl rfl
    | selectWindow window => exact h.silent (Host.selectWindow · window) rfl rfl
  restarted h := h.silent Host.restarted rfl rfl
  supportsSplit_eq h := congrArg Host.supportsSplit h.host_eq
  read := by
    intro host r length h
    obtain ⟨rfl, printed_eq, taken_eq⟩ := h
    cases inputs : r.host.inputs with
    | nil =>
      have given : Host.read r.host length = (none, r.host) := by simp only [Host.read, inputs]
      rw [given, Recorded.read_of_nil inputs]
      exact ⟨rfl, rfl, printed_eq, taken_eq⟩
    | cons line rest =>
      have given : Host.read r.host length =
          (some (cutLine line length), { r.host with inputs := rest }) := by
        simp only [Host.read, inputs]
      rw [given, Recorded.read_of_cons inputs]
      refine ⟨rfl, rfl, ?_, ?_⟩
      · rw [Recorded.printed_note, Entry.printed, String.append_empty]
        exact printed_eq
      · rw [Recorded.taken_note, Entry.taken, List.append_assoc, ← taken_eq, inputs]
        rfl

theorem keeping_records : Keeping (Records lines) where
  save := by
    intro host r bytes h
    refine ⟨congrArg (fun host => (Host.save host bytes).1) h.host_eq, ?_⟩
    refine h.silent (fun host => (Host.save host bytes).2) ?_ ?_
    all_goals
      simp only [Host.save]
      split
      · rfl
      · rfl
  restore := by
    intro host r h
    exact ⟨congrArg (fun host => (Host.restore host).1) h.host_eq,
      h.silent (fun host => (Host.restore host).2) rfl rfl⟩

/-! ### The terminal writes out the record -/

namespace Terminal

/-- The line without its end, as the story gets it. -/
def lineOf (line : List Char) : String :=
  String.ofList (Text.withoutEnd line)

variable {t : Terminal}

/-- Printing a text has to do with what is written and with the files, and nothing else. -/
theorem print_eq (text : String) (transcript : Bool) :
    ∃ directory path, t.print text transcript =
      { t with written := t.written ++ text, directory, transcript := path } := by
  rw [print]
  split
  · simp only [appendTranscript]
    split
    · exact ⟨t.directory, t.transcript, rfl⟩
    · split
      · exact ⟨_, t.transcript, rfl⟩
      · exact ⟨t.directory, none, rfl⟩
  · exact ⟨t.directory, t.transcript, rfl⟩

theorem read_of_nil (input : t.input = []) (length : Nat) :
    Host.read t length = (none, { t with starved := true }) := by
  simp only [Host.read, read, takeLine, input]

theorem read_of_cons {line : List Char} {rest : List (List Char)} (input : t.input = line :: rest)
    (length : Nat) :
    Host.read t length = (some (cutLine (lineOf line) length),
      if t.screen.interactive then { t with input := rest }
      else { t with input := rest }.write (lineOf line ++ "\n")) := by
  simp only [Host.read, read, takeLine, input, cutLine, lineOf, String.toList_ofList]

end Terminal

/-- The terminal has the same lines and has written out the record. -/
structure Mimics (screen : Screen) (config : TerminalConfig) (t : Terminal) (r : Recorded) :
    Prop where
  screen_eq : t.screen = screen
  statusLine_eq : t.statusLine = screen.shows config
  inputs_eq : r.host.inputs = t.input.map Terminal.lineOf
  written_eq : t.written = r.shownOn screen config
  drawn_eq : t.statusLine = true → t.drawn = r.updates
  canSplit_eq : r.host.canSplit = false

namespace Mimics

variable {screen : Screen} {config : TerminalConfig} {t : Terminal} {r : Recorded}

theorem print (h : Mimics screen config t r) (text : String) (transcript : Bool) :
    Mimics screen config (Host.print t text transcript) (Host.print r text transcript) := by
  obtain ⟨directory, path, eq⟩ := t.print_eq text transcript
  show Mimics screen config (t.print text transcript) (Recorded.note _ _)
  rw [eq]
  refine { h with written_eq := ?_ }
  rw [Recorded.shownOn_note, Entry.shownOn, h.written_eq]
  rfl

/-- A status line is drawn if there is one at all. -/
theorem updateStatus (h : Mimics screen config t r) (location : String) (status : Status) :
    Mimics screen config (Host.updateStatus t location status)
      (Host.updateStatus r location status) := by
  obtain rfl := h.screen_eq
  show Mimics _ config (t.updateStatus location status) (Recorded.note _ _)
  rw [Terminal.updateStatus]
  split
  · next shows =>
    have drawn := h.drawn_eq shows
    refine { h with written_eq := ?_, drawn_eq := fun _ => congrArg (· + 1) drawn }
    rw [Recorded.shownOn_note, Entry.shownOn, if_pos (h.statusLine_eq ▸ shows), Terminal.write,
      h.written_eq, drawn]
    rfl
  · next hidden =>
    refine { h with written_eq := ?_, drawn_eq := fun shows => absurd shows hidden }
    rw [Recorded.shownOn_note, Entry.shownOn, if_neg (h.statusLine_eq ▸ hidden),
      String.append_empty, h.written_eq]
    rfl

theorem read (h : Mimics screen config t r) (length : Nat) :
    (Host.read r length).1 = (Host.read t length).1 ∧
      Mimics screen config (Host.read t length).2 (Host.read r length).2 := by
  obtain rfl := h.screen_eq
  cases input : t.input with
  | nil =>
    have inputs : r.host.inputs = [] := by rw [h.inputs_eq, input, List.map_nil]
    rw [Terminal.read_of_nil input, Recorded.read_of_nil inputs]
    exact ⟨rfl, { h with }⟩
  | cons line rest =>
    have inputs : r.host.inputs = Terminal.lineOf line :: rest.map Terminal.lineOf := by
      rw [h.inputs_eq, input, List.map_cons]
    rw [Terminal.read_of_cons input, Recorded.read_of_cons inputs]
    refine ⟨rfl, ?_⟩
    split
    · next seen =>
      refine { h with inputs_eq := rfl, written_eq := ?_ }
      rw [Recorded.shownOn_note, Entry.shownOn, if_pos seen, String.append_empty]
      exact h.written_eq
    · next unseen =>
      refine { h with inputs_eq := rfl, written_eq := ?_ }
      rw [Recorded.shownOn_note, Entry.shownOn, if_neg unseen, Terminal.write, h.written_eq]
      rfl

end Mimics

theorem answering_mimics {screen : Screen} {config : TerminalConfig} :
    Answering (Mimics screen config) where
  tell notice h := by
    cases notice with
    | print text transcript => exact h.print text transcript
    | updateStatus location status => exact h.updateStatus location status
    | setFixedPitch | splitWindow | selectWindow => exact { h with }
  restarted h := { h with }
  supportsSplit_eq h := h.canSplit_eq
  read length h := h.read length

end ZMachine
