/-!
Byte strings as lists: big-endian naturals of a fixed width, two's complement integers, and the
least width the wire uses for an integer.
-/

namespace EventEnvelope

abbrev Bytes := List UInt8

namespace Bytes

def capacity (width : Nat) : Nat := Nat.pow 256 width

/-- The natural number that the bytes spell, most significant byte first. -/
def toNat : Bytes → Nat
  | [] => 0
  | b :: r => b.toNat * capacity r.length + toNat r

/-- The low `width` bytes of a natural number, most significant byte first. -/
def ofNat : Nat → Nat → Bytes
  | 0, _ => []
  | width + 1, n => UInt8.ofNat (n / capacity width % 256) :: ofNat width n

/-- The two's complement reading of the bytes; no bytes denote zero. -/
def toInt (bs : Bytes) : Int :=
  if 2 * bs.toNat < capacity bs.length then bs.toNat else (bs.toNat : Int) - capacity bs.length

def ofInt (width : Nat) (n : Int) : Bytes :=
  ofNat width (n % capacity width).toNat

def bitLength (n : Nat) : Nat :=
  if n = 0 then 0 else n.log2 + 1

/-- Room for the binary digits of the absolute value and a sign. -/
def signedWidth (n : Int) : Nat :=
  (bitLength n.natAbs + 8) / 8

theorem capacity_succ (width : Nat) : capacity (width + 1) = capacity width * 256 := rfl

@[simp] theorem length_ofNat (width n : Nat) : (ofNat width n).length = width := by
  induction width with
  | zero => rfl
  | succ w ih => simp [ofNat, ih]

theorem toNat_lt (bs : Bytes) : bs.toNat < capacity bs.length := by
  induction bs with
  | nil => simp [toNat, capacity]
  | cons b r ih =>
    have hb : b.toNat ≤ 255 := Nat.le_of_lt_succ b.toNat_lt
    have := Nat.mul_le_mul_right (capacity r.length) hb
    simp only [toNat, List.length_cons, capacity_succ]
    omega

theorem toNat_ofNat (width n : Nat) : (ofNat width n).toNat = n % capacity width := by
  induction width with
  | zero => simp [ofNat, toNat, capacity, Nat.mod_one]
  | succ w ih =>
    have hlt : n / capacity w % 256 < 256 := Nat.mod_lt _ (by decide)
    rw [ofNat, toNat, ih, length_ofNat, UInt8.toNat_ofNat', Nat.mod_eq_of_lt (by simpa using hlt),
      capacity_succ, Nat.mod_mul]
    rw [Nat.mul_comm, Nat.add_comm]

end Bytes

end EventEnvelope
