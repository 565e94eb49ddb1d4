/-!
Double precision numbers as their 64 bits. A finite double is an integer multiple of `2 ^ -1074`,
so values are compared, cut and tested for integrality as integers over that unit.
-/

namespace EventEnvelope

structure Binary64 where
  bits : UInt64
deriving DecidableEq, Repr

namespace Binary64

/-- How many units of a finite double make one. -/
def unitsPerOne : Nat := Nat.pow 2 1074

def word (x : Binary64) : Nat := x.bits.toNat

def signWeight : Nat := 0x8000000000000000

/-- The weight of the exponent field, and of a significand's leading bit. -/
def exponentWeight : Nat := 0x10000000000000

def isNegative (x : Binary64) : Bool := signWeight ≤ x.word

def exponentField (x : Binary64) : Nat := x.word / exponentWeight % 0x800

def fractionField (x : Binary64) : Nat := x.word % exponentWeight

def isFinite (x : Binary64) : Bool := x.exponentField != 2047

def isNan (x : Binary64) : Bool := !x.isFinite && x.fractionField != 0

def significand (x : Binary64) : Nat :=
  if x.exponentField = 0 then x.fractionField else exponentWeight + x.fractionField

def shift (x : Binary64) : Nat := x.exponentField - 1

def magnitude (x : Binary64) : Nat := x.significand * Nat.pow 2 x.shift

def units (x : Binary64) : Int := if x.isNegative then -(x.magnitude : Int) else x.magnitude

def nan : Binary64 := ⟨0x7ff8000000000000⟩

def ofWord (negative : Bool) (w : Nat) : Binary64 :=
  ⟨UInt64.ofNat (if negative then signWeight + w else w)⟩

def infinity (negative : Bool) : Binary64 := ofWord negative (0x7ff * exponentWeight)

/-- The whole number that a finite double equals, if it equals one. -/
def toInt? (x : Binary64) : Option Int :=
  if x.isFinite && x.magnitude % unitsPerOne = 0 then some (x.units / unitsPerOne) else none

/-- A finite double without its fraction; rounds toward zero. -/
def truncate (x : Binary64) : Int := Int.tdiv x.units unitsPerOne

/-- A quotient rounded to the nearest natural number, a half to the even neighbour. -/
def roundHalfEven (num den : Nat) : Nat :=
  let q := num / den
  let r := num % den
  if 2 * r < den then q
  else if den < 2 * r then q + 1
  else if q % 2 = 0 then q else q + 1

/-- The double nearest to `num / den`, ties to the even significand; too large a value is
infinite. -/
def ofRatio (negative : Bool) (num den : Nat) : Binary64 :=
  let scaled := num * unitsPerOne
  let q := scaled / den
  let p := if q < 2 * exponentWeight then 0 else q.log2 - 52
  let m := roundHalfEven scaled (den * Nat.pow 2 p)
  let w := if m < exponentWeight then m else (p + 1) * exponentWeight + (m - exponentWeight)
  ofWord negative (min w (0x7ff * exponentWeight))

/-- A single precision pattern widened without loss; not-a-numbers lose their payload. -/
def ofBinary32 (w : Nat) : Binary64 :=
  let negative : Bool := 0x80000000 ≤ w
  let e := w / 0x800000 % 0x100
  let f := w % 0x800000
  if e = 255 then (if f = 0 then infinity negative else nan)
  else if e = 0 then ofRatio negative f (Nat.pow 2 149)
  else ofRatio negative ((0x800000 + f) * Nat.pow 2 e) (Nat.pow 2 150)

/-- The double nearest to `digits * 10 ^ exponent`. Exponents far outside the range are settled
by the count of digits, so no huge power is computed. -/
def ofDecimal (negative : Bool) (digits : Nat) (exponent : Int) : Binary64 :=
  let places : Int := (Nat.toDigits 10 digits).length
  if digits = 0 then ofWord negative 0
  else if 310 < exponent + places then infinity negative
  else if exponent + places < -330 then ofWord negative 0
  else if 0 ≤ exponent then ofRatio negative (digits * Nat.pow 10 exponent.toNat) 1
  else ofRatio negative digits (Nat.pow 10 exponent.natAbs)

end Binary64

end EventEnvelope
