import ZMachine.Proofs.Machine.Invariant
import ZMachine.Proofs.Snapshot.Container

/-!
# The format of frames

`Parses x format` says what a reader takes from the front of some bytes: it gives a result just if
they begin with bytes that the format has for it, and it leaves the others; if it has to stop short
of the end of such bytes, it finds them truncated. Readers that run one after the other parse the
bytes of one format followed by those of the other (`Parses.bind`), so what the reader of frames
parses is put together from its parts.

Frames are read from any bytes that spell them (`Spells`). Of the two bytes that tell where a frame's
result goes, all flags but zero mean the same, and behind a flag of zero the other byte means nothing
(`StoreMark`); all other bytes are those that are written.
-/

namespace ZMachine.Frames

variable {α β : Type}

/-- The reader takes just the bytes that the format has for its result, and misses the end of any of
them. -/
structure Parses (x : Reader α) (format : α → List UInt8 → Prop) : Prop where
  eq_ok_iff : ∀ {bytes a rest}, x bytes = .ok (a, rest) ↔
    ∃ used, format a used ∧ bytes = used ++ rest
  cut : ∀ {a front back}, format a (front ++ back) → back ≠ [] → x front = truncated

namespace Parses

variable {x : Reader α} {format format' : α → List UInt8 → Prop}

theorem congr (h : Parses x format) (same : ∀ a used, format a used ↔ format' a used) :
    Parses x format' where
  eq_ok_iff {bytes a rest} := by simp only [h.eq_ok_iff, same]
  cut given := h.cut ((same _ _).mpr given)

theorem pure (a : α) : Parses (pure a : Reader α) fun result used => result = a ∧ used = [] where
  eq_ok_iff {bytes result rest} := by
    constructor
    · intro h
      cases h
      exact ⟨[], ⟨rfl, rfl⟩, rfl⟩
    · rintro ⟨_, ⟨rfl, rfl⟩, rfl⟩
      rfl
  cut given missing := absurd (List.append_eq_nil_iff.mp given.2).2 missing

theorem bind {f : α → Reader β} {behind : α → β → List UInt8 → Prop} (hx : Parses x format)
    (hf : ∀ a, Parses (f a) (behind a)) :
    Parses (x >>= f) fun b used => ∃ a front back,
      format a front ∧ used = front ++ back ∧ behind a b back where
  eq_ok_iff {bytes b rest} := by
    rw [reader_bind_eq_ok]
    constructor
    · rintro ⟨a, mid, first, second⟩
      obtain ⟨front, hfront, rfl⟩ := hx.eq_ok_iff.mp first
      obtain ⟨back, hback, rfl⟩ := (hf a).eq_ok_iff.mp second
      exact ⟨front ++ back, ⟨a, front, back, hfront, rfl, hback⟩, by rw [List.append_assoc]⟩
    · rintro ⟨_, ⟨a, front, back, hfront, rfl, hback⟩, rfl⟩
      refine ⟨a, back ++ rest, hx.eq_ok_iff.mpr ⟨front, hfront, by rw [List.append_assoc]⟩, ?_⟩
      exact (hf a).eq_ok_iff.mpr ⟨back, hback, rfl⟩
  cut {b here missing} given some := by
    obtain ⟨a, front, back, hfront, eq, hback⟩ := given
    -- The bytes end either within those of the first reader or behind them.
    rcases List.append_eq_append_iff.mp eq with ⟨more, rfl, rfl⟩ | ⟨started, rfl, rfl⟩
    · by_cases all : more = []
      · subst all
        have first : x here = .ok (a, []) := hx.eq_ok_iff.mpr ⟨_, hfront, by simp⟩
        rw [reader_bind_of_ok first]
        exact (hf a).cut hback some
      · exact reader_bind_of_error (hx.cut hfront all)
    · have first : x (front ++ started) = .ok (a, started) := hx.eq_ok_iff.mpr ⟨_, hfront, rfl⟩
      rw [reader_bind_of_ok first]
      exact (hf a).cut hback some

/-- A check that stops the reader with some other error. -/
theorem check {p : Prop} [Decidable p] (hx : Parses x format) (e : MachineError) :
    Parses (if p then throw e else x) fun a used => ¬ p ∧ format a used := by
  split
  · next failed =>
    constructor
    · intro bytes a rest
      constructor
      · intro h
        cases h
      · rintro ⟨used, ⟨passed, -⟩, -⟩
        exact absurd failed passed
    · rintro a front back ⟨passed, -⟩
      exact absurd failed passed
  · next passed => exact hx.congr fun a used => (and_iff_right passed).symm

end Parses

/-- Bytes that go on have not been taken in full. -/
theorem length_lt_of_missing {front back used : List UInt8} (eq : front ++ back = used)
    (missing : back ≠ []) : front.length < used.length := by
  rw [← eq, List.length_append]
  exact Nat.lt_add_of_pos_right (List.length_pos_iff.mpr missing)

theorem parses_byte : Parses byte fun b used => used = [b] where
  eq_ok_iff {bytes b rest} := by
    cases bytes with
    | nil => simp [byte_eq, truncated]
    | cons c bytes => simp [byte_eq]
  cut {b front back} given missing := by
    have short := length_lt_of_missing given missing
    cases front with
    | nil => rfl
    | cons c front => simp at short

theorem parses_word : Parses word fun w used => used = Word.bytes w where
  eq_ok_iff {bytes w rest} := by
    constructor
    · intro h
      rw [word_eq] at h
      split at h
      · next a b rest =>
        cases h
        exact ⟨[a, b], by simp [Word.bytes], rfl⟩
      · cases h
    · rintro ⟨_, rfl, rfl⟩
      simp [Word.bytes, word_eq]
  cut {w front back} given missing := by
    have short := length_lt_of_missing given missing
    rw [word_eq]
    split
    · simp only [Word.bytes, List.length_cons, List.length_nil] at short
      omega
    · rfl

theorem parses_long :
    Parses long fun n used => n < Machine.addressLimit ∧ used = Word.longBytes n where
  eq_ok_iff {bytes n rest} := by
    constructor
    · intro h
      rw [long_eq] at h
      split at h
      · next a b c d rest =>
        cases h
        exact ⟨[a, b, c, d], ⟨Container.long_lt a b c d, (Word.longBytes_long a b c d).symm⟩, rfl⟩
      · cases h
    · rintro ⟨_, ⟨limit, rfl⟩, rfl⟩
      simp [Word.longBytes, long_eq, Container.long_of_longBytes limit]
  cut {n front back} given missing := by
    have short := length_lt_of_missing given.2 missing
    rw [long_eq]
    split
    · simp only [Word.longBytes, List.length_cons, List.length_nil] at short
      omega
    · rfl

theorem parses_wordList (n : Nat) :
    Parses (wordList n) fun ws used => ws.length = n ∧ used = ws.flatMap Word.bytes := by
  induction n with
  | zero =>
    refine (Parses.pure []).congr fun ws used => ?_
    constructor
    · rintro ⟨rfl, rfl⟩
      exact ⟨rfl, rfl⟩
    · rintro ⟨none, rfl⟩
      rw [List.length_eq_zero_iff] at none
      subst none
      exact ⟨rfl, rfl⟩
  | succ n ih =>
    refine (parses_word.bind fun w => ih.bind fun ws => Parses.pure (w :: ws)).congr
      fun ws used => ?_
    constructor
    · rintro ⟨w, _, _, rfl, rfl, ws, _, _, ⟨rfl, rfl⟩, rfl, rfl, rfl⟩
      simp
    · rintro ⟨length, rfl⟩
      obtain ⟨w, ws, rfl⟩ := List.exists_cons_of_length_eq_add_one length
      exact ⟨w, _, _, rfl, by simp, ws, _, _, ⟨Nat.succ.inj length, rfl⟩, rfl, rfl, rfl⟩

/-- Words behind their number, which has to be within a limit. -/
theorem Parses.words_bind {γ : Type} {x : Reader γ} {limit : Nat} {f : List UInt16 → Reader α}
    {behind : List UInt16 → α → List UInt8 → Prop} (count : γ → Nat)
    (countBytes : Nat → List UInt8) (hx : Parses x fun c used => used = countBytes (count c))
    (counts : ∀ n, n ≤ limit → ∃ c, count c = n) (e : γ → MachineError)
    (hf : ∀ ws, Parses (f ws) (behind ws)) :
    Parses (x >>= fun c => if limit < count c then throw (e c) else wordList (count c) >>= f)
      fun a used => ∃ ws rest, ws.length ≤ limit ∧
        used = countBytes ws.length ++ (ws.flatMap Word.bytes ++ rest) ∧ behind ws a rest := by
  refine (hx.bind fun c => ((parses_wordList (count c)).bind hf).check (e c)).congr
    fun a used => ?_
  constructor
  · rintro ⟨c, _, _, rfl, rfl, within, ws, _, rest, ⟨length, rfl⟩, rfl, read⟩
    rw [← length] at within ⊢
    exact ⟨ws, rest, Nat.le_of_not_lt within, rfl, read⟩
  · rintro ⟨ws, rest, le, rfl, read⟩
    obtain ⟨c, counted⟩ := counts ws.length le
    rw [← counted] at le ⊢
    exact ⟨c, _, _, rfl, rfl, Nat.not_lt_of_le le, ws, _, rest, ⟨counted.symm, rfl⟩, rfl, read⟩

/-! ### Frames -/

/-- The two bytes that tell where the result of a frame goes. -/
structure StoreMark where
  flag : UInt8
  number : UInt8
  deriving DecidableEq, Repr

/-- A flag of zero is for a result that is thrown away; any other flag is for a variable. -/
def StoreMark.store (mark : StoreMark) : Option UInt8 :=
  if mark.flag = 0 then none else some mark.number

/-- The bytes of a frame, with some two bytes to tell where its result goes. -/
def frameWith (f : Frame) (mark : StoreMark) : List UInt8 :=
  Word.longBytes f.returnPc ++ [mark.flag, mark.number] ++
    .ofNat f.locals.length :: f.locals.flatMap Word.bytes ++
    Word.bytes (.ofNat f.stack.length) ++ f.stack.reverse.flatMap Word.bytes

/-- The bytes are those of the frames but for the two bytes of each that tell where its result goes;
they say the same as those that are written. -/
inductive Spells : List Frame → List UInt8 → Prop
  | nil : Spells [] []
  | cons {f : Frame} {mark : StoreMark} {frames : List Frame} {bytes : List UInt8}
      (same : mark.store = f.store) (rest : Spells frames bytes) :
      Spells (f :: frames) (frameWith f mark ++ bytes)

theorem exists_mark (f : Frame) :
    ∃ mark : StoreMark, mark.store = f.store ∧ frameBytes f = frameWith f mark := by
  obtain ⟨returnPc, store, locals, stack⟩ := f
  cases store with
  | none => exact ⟨⟨0, 0⟩, rfl, rfl⟩
  | some number => exact ⟨⟨1, number⟩, rfl, rfl⟩

/-- Written frames spell themselves. -/
theorem spells_flatMap_frameBytes (frames : List Frame) :
    Spells frames (frames.flatMap frameBytes) := by
  induction frames with
  | nil => exact .nil
  | cons f frames ih =>
    obtain ⟨mark, same, written⟩ := exists_mark f
    rw [List.flatMap_cons, written]
    exact .cons same ih

theorem Parses.mark_bind {f : StoreMark → Reader α} {behind : StoreMark → α → List UInt8 → Prop}
    (hf : ∀ mark, Parses (f mark) (behind mark)) :
    Parses (byte >>= fun flag => byte >>= fun number => f ⟨flag, number⟩) fun a used =>
      ∃ mark rest, used = mark.flag :: mark.number :: rest ∧ behind mark a rest := by
  refine (parses_byte.bind fun flag => parses_byte.bind fun number => hf ⟨flag, number⟩).congr
    fun a used => ?_
  constructor
  · rintro ⟨flag, _, _, rfl, rfl, number, _, rest, rfl, rfl, read⟩
    exact ⟨⟨flag, number⟩, rest, rfl, read⟩
  · rintro ⟨mark, rest, rfl, read⟩
    exact ⟨mark.flag, _, _, rfl, rfl, mark.number, _, rest, rfl, rfl, read⟩

theorem parses_localCount : Parses byte fun b used => used = [.ofNat b.toNat] := by
  simpa using parses_byte

theorem parses_stackCount : Parses word fun w used => used = Word.bytes (.ofNat w.toNat) := by
  simpa using parses_word

theorem exists_localCount (n : Nat) (le : n ≤ localsLimit) : ∃ b : UInt8, b.toNat = n :=
  ⟨.ofNat n, UInt8.toNat_ofNat_of_lt' (Nat.lt_of_le_of_lt le (by decide))⟩

theorem exists_stackCount (n : Nat) (le : n ≤ stackLimit) : ∃ w : UInt16, w.toNat = n :=
  ⟨.ofNat n, UInt16.toNat_ofNat_of_lt' (Nat.lt_of_le_of_lt le (by decide))⟩

theorem parses_frame :
    Parses frame fun f used => f.Sound ∧ ∃ mark : StoreMark, mark.store = f.store ∧
      used = frameWith f mark := by
  refine (parses_long.bind fun returnPc => Parses.mark_bind fun mark =>
    Parses.words_bind UInt8.toNat (fun n => [.ofNat n]) parses_localCount exists_localCount
      (fun count => .badSnapshot (.frameLocals count.toNat)) fun locals =>
        Parses.words_bind UInt16.toNat (fun n => Word.bytes (.ofNat n)) parses_stackCount
          exists_stackCount (fun count => .badSnapshot (.frameStack count.toNat)) fun values =>
            Parses.pure (Frame.mk returnPc mark.store locals values.reverse)).congr
              fun f used => ?_
  constructor
  · rintro ⟨returnPc, _, _, ⟨limit, rfl⟩, rfl, mark, _, rfl, locals, _, fewLocals, rfl,
      values, _, fewValues, rfl, rfl, rfl⟩
    refine ⟨⟨fewLocals, ?_, limit⟩, mark, rfl, ?_⟩
    · simpa using fewValues
    · simp [frameWith]
  · rintro ⟨sound, mark, same, rfl⟩
    refine ⟨f.returnPc, _, _, ⟨sound.returnPc_lt, rfl⟩, ?_, mark, _, rfl, f.locals, _,
      sound.locals_le, rfl, f.stack.reverse, _, ?_, rfl, ?_, rfl⟩
    · simp [frameWith]
    · simpa using sound.stack_le
    · rw [same, List.reverse_reverse]

/-- Frames are read one after the other, behind those that have been read. -/
theorem parses_frameList (done : List Frame) (n : Nat) :
    Parses (frameList done n) fun frames used => ∃ more, frames = done.reverse ++ more ∧
      more.length = n ∧ (∀ f ∈ more, f.Sound) ∧ Spells more used := by
  induction n generalizing done with
  | zero =>
    refine (Parses.pure done.reverse).congr fun frames used => ?_
    constructor
    · rintro ⟨rfl, rfl⟩
      exact ⟨[], by simp, rfl, by simp, .nil⟩
    · rintro ⟨more, rfl, none, -, spelled⟩
      cases spelled with
      | nil => simp
      | cons => cases none
  | succ n ih =>
    refine (parses_frame.bind fun f => ih (f :: done)).congr fun frames used => ?_
    constructor
    · rintro ⟨f, _, _, ⟨sound, mark, same, rfl⟩, rfl, more, rfl, rfl, sounds, spelled⟩
      exact ⟨f :: more, by simp, rfl, List.forall_mem_cons.mpr ⟨sound, sounds⟩, .cons same spelled⟩
    · rintro ⟨more, rfl, length, sounds, spelled⟩
      cases spelled with
      | nil => cases length
      | @cons f mark more bytes same rest =>
        obtain ⟨sound, sounds⟩ := List.forall_mem_cons.mp sounds
        exact ⟨f, _, _, ⟨sound, mark, same, rfl⟩, rfl, more, by simp, Nat.succ.inj length, sounds,
          rest⟩

/-- Frames behind their number. -/
def counted : Reader (List Frame) := do
  let count ← word
  if count = 0 then throw (.badSnapshot .noFrame) else frameList [] count.toNat

/-- The bytes are those of the frames behind their number, but for what `Spells` leaves open. -/
def SpellsCounted (frames : List Frame) (bytes : List UInt8) : Prop :=
  ∃ body, bytes = Word.bytes (.ofNat frames.length) ++ body ∧ Spells frames body

/-- The bytes are a number and as many frames: at least one, no more than can be counted, all of them
within the limits. -/
structure Counted (frames : List Frame) (bytes : List UInt8) : Prop where
  ne_nil : frames ≠ []
  count_le : frames.length ≤ frameLimit
  sound : ∀ f ∈ frames, f.Sound
  spelled : SpellsCounted frames bytes

theorem toNat_ofNat_of_le {n : Nat} (le : n ≤ frameLimit) : (UInt16.ofNat n).toNat = n :=
  UInt16.toNat_ofNat_of_lt' (Nat.lt_of_le_of_lt le (by decide))

theorem parses_counted : Parses counted Counted := by
  refine (parses_word.bind fun count => (parses_frameList [] count.toNat).check _).congr
    fun frames used => ?_
  constructor
  · rintro ⟨count, _, body, rfl, rfl, some, more, rfl, length, sounds, spelled⟩
    have bound := count.toNat_lt
    refine ⟨?_, ?_, sounds, body, by simp [length], spelled⟩
    · rintro rfl
      exact some (UInt16.toNat_inj.mp length.symm)
    · rw [length]
      exact Nat.le_of_lt_succ bound
  · rintro ⟨some, few, sounds, body, rfl, spelled⟩
    have count := toNat_ofNat_of_le few
    refine ⟨_, _, body, rfl, rfl, ?_, frames, rfl, count.symm, sounds, spelled⟩
    intro zero
    rw [zero] at count
    exact some (List.length_eq_zero_iff.mp count.symm)

end ZMachine.Frames
