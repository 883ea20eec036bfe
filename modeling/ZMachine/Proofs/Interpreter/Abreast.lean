import ZMachine.Proofs.Interpreter.Companions
import ZMachine.Proofs.Interpreter.Saving
import ZMachine.Proofs.Machine.InputLine

/-!
# Interpreters abreast

Two interpreters are `Abreast` at the same place of a game if they differ only in that the host of
the first one has the lines that are still to be read, and in random numbers that nobody can
predict. Every instruction but one that reads a line leaves them abreast (`matched_execute`). Most
do so because the interpreters are twins; of those that depend on more than the machine, `random`
draws from the same seed, and `save` and `restore` find the same game with the host.
-/

namespace ZMachine

/-- The game that a host has kept, if any, does not wait for a line when it is restored. -/
def NoneWaits (story : Story) (saved : Option (List UInt8)) : Prop :=
  ∀ bytes m snapshot, saved = some bytes → m.Sound story →
    Snapshot.ofBytes bytes m = .ok snapshot →
      ∀ text parse, snapshot.head.resume ≠ .awaitingInput text parse

namespace Interpreter

/-- The first host holds the lines; the other one is the same without them. -/
structure Unread (story : Story) (lines : List String) (host other : Scripted) : Prop where
  lines_eq : host.inputs = lines
  other_eq : other = { host with inputs := [] }
  typeable : ∀ line ∈ lines, Machine.Typeable line.toList
  noneWaits : NoneWaits story host.saved

theorem responsive_unread {story : Story} {lines : List String} :
    Responsive (Unread story lines) where
  tell notice h := by
    obtain ⟨lines_eq, rfl, typeable, noneWaits⟩ := h
    cases notice <;> exact ⟨lines_eq, rfl, typeable, noneWaits⟩
  restarted h := by
    obtain ⟨lines_eq, rfl, typeable, noneWaits⟩ := h
    exact ⟨lines_eq, rfl, typeable, noneWaits⟩
  supportsSplit_eq h := by
    obtain ⟨-, rfl, -, -⟩ := h
    rfl

/-- The same run state, in which the story waits for a line only if there is none. -/
structure Starved (lines : List String) (state other : RunState) : Prop where
  eq : other = state
  none_left : ∀ text parse, state = .waiting text parse → lines = []

theorem starved_running {lines : List String} : Starved lines .running .running :=
  ⟨rfl, nofun⟩

theorem starved_quit {lines : List String} : Starved lines .quit .quit :=
  ⟨rfl, nofun⟩

/-- Random numbers from the same seed, as long as they can be predicted. -/
def SeedKept (r r' : Random) : Prop :=
  r.mode = .predictable → SameSeed r r'

theorem roll_of_sameSeed {r r' : Random} (same : SameSeed r r') (range : Int) :
    (r'.roll range).1 = (r.roll range).1 ∧ SeedKept (r.roll range).2 (r'.roll range).2 := by
  by_cases zero : range = 0
  · have reseeded : ∀ q : Random, q.roll range = (0, .uniform q.entropy) := by
      intro q
      rw [Random.roll, if_neg (by omega), if_pos zero]
    rw [reseeded, reseeded]
    refine ⟨rfl, fun predictable => ?_⟩
    cases predictable
  · obtain ⟨value, seeds⟩ := rolling_sameSeed zero r r' same
    exact ⟨value, fun _ => seeds⟩

/-- Two interpreters at the same place of a game. The lines are still to be read; the host of the
first one has them. -/
abbrev Abreast (story : Story) (lines : List String) (randoms : Random → Random → Prop) :
    Interpreter Scripted → Interpreter Scripted → Prop :=
  Twins (Unread story lines) randoms (Starved lines)

/-- The machines are the same, as many instructions have been executed, and the hosts have got the
same output and hold the same game. Only lines that have not been read make a difference. -/
structure SameGame (s t : Interpreter Scripted) : Prop where
  machine_eq : t.machine = s.machine
  count_eq : t.count = s.count
  host_eq : t.host = { s.host with inputs := [] }

variable {story : Story} {lines : List String} {randoms : Random → Random → Prop}
  {states : RunState → RunState → Prop} {s t u : Interpreter Scripted} {inst : Instruction}
  {values : List UInt16}

theorem Twins.sameGame (h : Twins (Unread story lines) randoms states s t) : SameGame s t :=
  ⟨h.machine_eq, h.count_eq, h.hosts.other_eq⟩

theorem Twins.seedKept (h : Twins (Unread story lines) SameSeed states s t) :
    Twins (Unread story lines) SeedKept states s t :=
  { h with randoms := fun _ => h.randoms }

theorem matched_of_alike {α : Type} {x y : Play Scripted α}
    (alike : Alike (Twins (Unread story lines) randoms states) x y)
    (h : Twins (Unread story lines) randoms states s t) :
    Matched (Twins (Unread story lines) randoms states) SameGame (x s) (y t) :=
  (alike s t h).mono (fun _ _ h' => h') fun _ _ h' => h'.sameGame

theorem alike_inward {x y : Play Scripted Outcome} (h : Ending inst x y) :
    Alike (Abreast story lines randoms) x y :=
  alike_ending responsive_unread h

/-! ### Instructions that do not read a line -/

theorem matched_executeRandom (h : Abreast story lines SameSeed s t) :
    Matched (Abreast story lines SeedKept) SameGame (executeRandom inst values s)
      (executeRandom inst values t) := by
  refine (matched_of_alike (alike_works responsive_unread (.operand 0)) h).bind
    fun range s' t' _ h' => ?_
  obtain ⟨value, seeds⟩ := roll_of_sameSeed h'.randoms (Word.signed range)
  have rolled : Matched (Abreast story lines SeedKept) SameGame (roll (Word.signed range) s')
      (roll (Word.signed range) t') := matched_roll h' value seeds
  refine rolled.bind fun value s'' t'' _ h'' => ?_
  exact matched_of_alike (alike_inward (.finish value)) h''

/-- A game that is saved by an instruction does not wait for a line. -/
theorem noneWaits_of_encode {m : Machine} {pc : Nat} {bytes : List UInt8}
    (hs : story.Sound) (hm : m.Sound story) (short : pc < Machine.addressLimit)
    (inside : pc < story.image.size) (encoded : encode pc .saveInstruction m = .ok bytes) :
    NoneWaits story (some bytes) := by
  intro bytes' n snapshot kept hn read text parse
  cases kept
  rw [ofBytes_of_encode hs hm hn short inside encoded] at read
  cases read
  exact nofun

theorem matched_executeSave (hs : story.Sound) (sound : s.machine.Sound story)
    (short : s.currentPc < Machine.addressLimit) (inside : s.currentPc < story.image.size)
    (h : Abreast story lines SeedKept s t) :
    Matched (Abreast story lines SeedKept) SameGame (executeSave inst s) (executeSave inst t) := by
  rw [executeSave, get_bind, get_bind, h.currentPc_eq]
  refine (matched_of_alike (alike_ask _) h).bind fun bytes s' t' asked h' => ?_
  obtain ⟨encoded, rfl⟩ := ask_eq_ok.mp asked
  have saving : Alike (Abreast story lines SeedKept) (onHost fun host => Host.save host bytes)
      (onHost fun host => Host.save host bytes) := by
    refine alike_onHost fun host other related => ?_
    obtain ⟨lines_eq, rfl, typeable, noneWaits⟩ := related
    refine ⟨rfl, ?_⟩
    by_cases succeeds : host.saveSucceeds = true
    · simp only [Host.save, if_pos succeeds]
      exact ⟨lines_eq, rfl, typeable, noneWaits_of_encode hs sound short inside encoded⟩
    · simp only [Host.save, if_neg succeeds]
      exact ⟨lines_eq, rfl, typeable, noneWaits⟩
  refine (matched_of_alike saving h').bind fun saved s'' t'' _ h'' => ?_
  exact matched_of_alike (alike_inward (.branchIf saved)) h''

theorem matched_restoreState {bytes : List UInt8} (sound : s.machine.Sound story)
    (held : s.host.saved = some bytes) (h : Abreast story lines randoms s t) :
    Matched (Abreast story lines randoms) (Abreast story lines randoms) (restoreState bytes s)
      (restoreState bytes t) := by
  refine (alike_ask _ s t h).bind fun snapshot s' t' asked h' => ?_
  obtain ⟨read, rfl⟩ := ask_eq_ok.mp asked
  have goesOn := h.hosts.noneWaits bytes s'.machine snapshot held sound read
  have resuming (inst : Option Instruction) : Alike (Abreast story lines randoms)
      (resume snapshot inst) (resume snapshot inst) := by
    refine alike_resume responsive_unread (fun place => ?_) starved_running ?_ inst
    · rfl
    · exact fun text parse waits => absurd waits (goesOn text parse)
  exact ((alike_ask _).bind fun inst => resuming inst) s' t' h'

theorem matched_executeRestore (sound : s.machine.Sound story)
    (h : Abreast story lines SeedKept s t) :
    Matched (Abreast story lines SeedKept) SameGame (executeRestore inst s)
      (executeRestore inst t) := by
  have given : Alike (Abreast story lines SeedKept) (onHost Host.restore)
      (onHost Host.restore) := by
    refine alike_onHost fun host other related => ?_
    have other_eq := related.other_eq
    subst other_eq
    exact ⟨rfl, related⟩
  refine Matched.executeRestore (matched_of_alike given h) (fun bytes s' t' asked h' => ?_)
    (alike_inward (.branchIf false)) fun _ _ h' => h'.sameGame
  obtain ⟨held, same⟩ := onHost_eq_ok.mp asked
  have held' : s.host.saved = some bytes := held.symm
  subst same
  exact matched_restoreState sound held' h'

/-! ### Reading a line -/

/-- What comes before a line is read: the addresses of its buffers are found, and the status line
is shown. -/
def buffers (inst : Instruction) : Play Scripted (UInt16 × UInt16) := do
  let values ← resolveAll inst.operands
  let text ← operand inst values 0
  showStatus
  pure (text, values.getD 1 0)

/-- The line is stored, or the story waits for it. -/
def takeLine (text parse : UInt16) : Play Scripted Outcome := do
  let length ← ask fun m => .ok (m.textCapacity text.toNat)
  match ← onHost fun host => Host.read host length with
  | some line => do
    let _ ← storeLine line text parse
    pure .continued
  | none => do
    await text parse
    pure .waiting

theorem execute_of_read (read : inst.opcode = .sread) :
    execute inst = buffers inst >>= fun given => takeLine given.1 given.2 := by
  have reads : ∀ values, executeRead inst values = (do
      let text ← operand inst values 0
      showStatus
      takeLine text (values.getD 1 0)) := fun _ => rfl
  simp only [execute, executeWith, read, reads, buffers, bind_assoc, pure_bind]

theorem alike_buffers :
    Alike (Twins (Unread story lines) randoms states) (buffers inst) (buffers inst) := by
  refine (alike_works responsive_unread (.resolveAll inst.operands)).bind fun values => ?_
  refine (alike_works responsive_unread (.operand 0)).bind fun text => ?_
  exact (alike_works responsive_unread .showStatus).bind fun _ => .pure _

/-- When there is no line, both stories wait for one. -/
theorem alike_takeLine (text parse : UInt16) :
    Alike (Abreast story [] randoms) (takeLine text parse) (takeLine text parse) := by
  refine (alike_ask _).bind fun length => ?_
  have reading : Alike (Abreast story [] randoms) (onHost fun host => Host.read host length)
      (onHost fun host => Host.read host length) := by
    refine alike_onHost fun host other related => ?_
    obtain ⟨lines_eq, rfl, typeable, noneWaits⟩ := related
    simp only [Host.read, lines_eq]
    exact ⟨trivial, lines_eq, rfl, typeable, noneWaits⟩
  refine reading.bind fun line => ?_
  cases line with
  | some line => exact (alike_storeLine line text parse).bind fun _ => .pure _
  | none =>
    refine (Alike.modify fun s t h => ?_).bind fun _ => .pure _
    exact { h with states := ⟨rfl, fun _ _ _ => rfl⟩ }

/-- Every instruction but one that reads a line that is there. -/
theorem matched_execute (hs : story.Sound) (sound : s.Sound story)
    (fetched : fetch s = .ok inst u) (h : Abreast story lines SameSeed u t)
    (unread : inst.opcode = .sread → lines = []) :
    Matched (Abreast story lines SeedKept) SameGame (execute inst u) (execute inst t) := by
  obtain ⟨decoded, short, counted, eq⟩ := fetch_eq_ok.mp fetched
  have inside := (Instruction.add_size_le decoded).1
  rw [sound.machine.size_eq] at inside
  have soundHere : u.machine.Sound story := eq ▸ (sound.fetched short counted).machine
  have resolving {randoms} : Alike (Abreast story lines randoms) (resolveAll inst.operands)
      (resolveAll inst.operands) := alike_works responsive_unread (.resolveAll inst.operands)
  cases out : outward inst.opcode with
  | false =>
    exact matched_of_alike (resolving.bind fun values => alike_inward (.executeWith out)) h.seedKept
  | true =>
    rcases eq_of_outward out with op | op | whole
    · obtain rfl := unread op
      rw [execute_of_read op]
      exact matched_of_alike (alike_buffers.bind fun _ => alike_takeLine _ _) h.seedKept
    · refine (matched_of_alike resolving h).bind fun values s' t' _ h' => ?_
      simp only [executeWith, op]
      exact matched_executeRandom h'
    · rcases eq_of_wholesale whole with op | op | op
      · rw [execute_of_op0 decoded (by rw [op]; rfl), executeWith, op]
        exact matched_executeSave hs soundHere (eq ▸ sound.machine.pc_lt) (eq ▸ inside) h.seedKept
      · rw [execute_of_op0 decoded (by rw [op]; rfl), executeWith, op]
        exact matched_executeRestore soundHere h.seedKept
      · rw [execute_of_op0 decoded (by rw [op]; rfl), executeWith, op]
        have restarting : Alike (Abreast story lines SeedKept) restart restart :=
          alike_restart responsive_unread starved_running
        exact matched_of_alike (restarting.bind fun _ => .pure _) h.seedKept

end Interpreter

end ZMachine
