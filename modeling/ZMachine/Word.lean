/-!
# Words of two bytes

Words are stored most significant byte first. Read as a signed number, a word is in two's
complement.
-/

namespace ZMachine.Word

def ofBytes (high low : UInt8) : UInt16 :=
  .ofNat (high.toNat * 256 + low.toNat)

def high (w : UInt16) : UInt8 :=
  .ofNat (w.toNat / 256)

def low (w : UInt16) : UInt8 :=
  .ofNat w.toNat

/-- The value in two's complement, from `-32768` to `32767`. -/
def signed (w : UInt16) : Int :=
  if w.toNat < 0x8000 then w.toNat else (w.toNat : Int) - 0x10000

/-- The word that stands for an integer modulo `2 ^ 16`. -/
def ofInt (n : Int) : UInt16 :=
  .ofNat (n % 0x10000).toNat

/-- The two bytes, most significant first. -/
def bytes (w : UInt16) : List UInt8 :=
  [high w, low w]

/-- The lowest four bytes of a number, most significant first. -/
def longBytes (n : Nat) : List UInt8 :=
  [.ofNat (n / 0x1000000), .ofNat (n / 0x10000), .ofNat (n / 0x100), .ofNat n]

/-- The number below `2 ^ 32` whose bytes these are. -/
def long (a b c d : UInt8) : Nat :=
  ((a.toNat * 256 + b.toNat) * 256 + c.toNat) * 256 + d.toNat

theorem toNat_ofBytes (high low : UInt8) :
    (ofBytes high low).toNat = high.toNat * 256 + low.toNat := by
  have h := high.toNat_lt
  have l := low.toNat_lt
  simp only [ofBytes, UInt16.toNat_ofNat']
  omega

@[simp] theorem high_ofBytes (a b : UInt8) : high (ofBytes a b) = a := by
  have h := b.toNat_lt
  have e : (a.toNat * 256 + b.toNat) / 256 = a.toNat := by omega
  simp only [high, toNat_ofBytes, e, UInt8.ofNat_toNat]

@[simp] theorem low_ofBytes (a b : UInt8) : low (ofBytes a b) = b := by
  apply UInt8.toNat_inj.mp
  have h := b.toNat_lt
  simp only [low, toNat_ofBytes, UInt8.toNat_ofNat']
  omega

@[simp] theorem ofBytes_high_low (w : UInt16) : ofBytes (high w) (low w) = w := by
  apply UInt16.toNat_inj.mp
  have h := w.toNat_lt
  simp only [toNat_ofBytes, high, low, UInt8.toNat_ofNat']
  omega

theorem signed_eq_zero {w : UInt16} : signed w = 0 ↔ w = 0 := by
  have h := w.toNat_lt
  rw [← UInt16.toNat_inj, signed]
  split
  · exact Int.natCast_eq_zero
  · rw [UInt16.toNat_zero]
    omega

theorem length_flatMap_bytes (ws : List UInt16) : (ws.flatMap bytes).length = 2 * ws.length := by
  induction ws with
  | nil => rfl
  | cons w rest ih =>
    rw [List.flatMap_cons, List.length_append, ih, List.length_cons, bytes, List.length_cons,
      List.length_singleton]
    omega

theorem long_longBytes (n : Nat) :
    long (.ofNat (n / 0x1000000)) (.ofNat (n / 0x10000)) (.ofNat (n / 0x100)) (.ofNat n) =
      n % 0x100000000 := by
  simp only [long, UInt8.toNat_ofNat']
  omega

/-- Four bytes are the lowest four bytes of the number that they stand for. -/
theorem longBytes_long (a b c d : UInt8) : longBytes (long a b c d) = [a, b, c, d] := by
  have ha := a.toNat_lt
  have hb := b.toNat_lt
  have hc := c.toNat_lt
  have hd := d.toNat_lt
  simp only [longBytes, long, List.cons.injEq, and_true, ← UInt8.toNat_inj, UInt8.toNat_ofNat']
  refine ⟨?_, ?_, ?_, ?_⟩
  all_goals omega

end ZMachine.Word
