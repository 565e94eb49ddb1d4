import EventEnvelope.Number.Binary64

/-!
The shortest decimal that reads back as a given double, and the text form in which doubles are
written: positional while the point falls near the digits, scientific otherwise.
-/

namespace EventEnvelope.Binary64

/-- A positive decimal `0.d₁d₂… × 10 ^ point`, without trailing zeros. -/
structure Decimal where
  digits : Nat
  point : Int
deriving DecidableEq, Repr

/-- The least power of ten above `num / den`. -/
def pointOf (num den : Nat) : Int :=
  if den ≤ num then (Nat.toDigits 10 (num / den)).length
  else 1 - ((Nat.toDigits 10 ((den - 1) / num)).length : Int)

/-- The interval of values that round to a double, in quarters of a unit. Both ends belong to it
when the significand is even. -/
structure Rounding where
  low : Nat
  value : Nat
  high : Nat
  closed : Bool

def rounding (x : Binary64) : Rounding :=
  let step := Nat.pow 2 x.shift
  let lower := if x.fractionField = 0 && 1 < x.exponentField then step else 2 * step
  { low := 4 * x.magnitude - lower
    value := 4 * x.magnitude
    high := 4 * x.magnitude + 2 * step
    closed := x.significand % 2 = 0 }

def Rounding.contains (r : Rounding) (num den : Nat) : Bool :=
  if r.closed then r.low * den ≤ num && num ≤ r.high * den
  else r.low * den < num && num < r.high * den

/-- Of the two neighbours on the grid of `count` digits, the one in the interval that is nearer to
the value; of two equally near ones the even one. -/
def neighbour? (r : Rounding) (point : Int) (count : Nat) : Option Nat :=
  let exponent := point - count
  let gridNum := 4 * unitsPerOne * (if 0 ≤ exponent then Nat.pow 10 exponent.toNat else 1)
  let gridDen := if 0 ≤ exponent then 1 else Nat.pow 10 exponent.natAbs
  let d := r.value * gridDen / gridNum
  let inside (n : Nat) : Bool := r.contains (n * gridNum) gridDen
  match inside d, inside (d + 1) with
  | false, false => none
  | true, false => some d
  | false, true => some (d + 1)
  | true, true =>
    let below := r.value * gridDen - d * gridNum
    let above := (d + 1) * gridNum - r.value * gridDen
    if below < above then some d
    else if above < below then some (d + 1)
    else some (if d % 2 = 0 then d else d + 1)

def stripZeros : Nat → Nat → Nat
  | 0, n => n
  | fuel + 1, n => if n % 10 = 0 then stripZeros fuel (n / 10) else n

/-- The shortest decimal in the rounding interval of a positive finite double. Seventeen digits
always suffice. -/
def shortest (x : Binary64) : Decimal :=
  let r := x.rounding
  let point := pointOf x.magnitude unitsPerOne
  let found := (List.range 17).findSome? fun i =>
    (neighbour? r point (i + 1)).map fun d => (d, i + 1)
  match found with
  | none => { digits := 0, point }
  | some (d, count) =>
    let carried := Nat.pow 10 count ≤ d
    { digits := stripZeros count d, point := if carried then point + 1 else point }

/-- Where the decimal point may fall for a number to be written without an exponent. -/
def isPositional (point : Int) : Bool := -4 < point && point ≤ 16

def decimalDigits (n : Nat) : List Char := Nat.toDigits 10 n

/-- An exponent carries its sign and at least two digits. -/
def exponentText (e : Int) : List Char :=
  let ds := decimalDigits e.natAbs
  (if e < 0 then '-' else '+') :: (List.replicate (2 - ds.length) '0' ++ ds)

def Decimal.text (d : Decimal) : List Char :=
  let ds := decimalDigits d.digits
  if isPositional d.point then
    if d.point ≤ 0 then '0' :: '.' :: (List.replicate d.point.natAbs '0' ++ ds)
    else
      let whole := d.point.toNat
      if ds.length ≤ whole then ds ++ List.replicate (whole - ds.length) '0' ++ ['.', '0']
      else ds.take whole ++ '.' :: ds.drop whole
  else
    let tail := if ds.length ≤ 1 then [] else '.' :: ds.drop 1
    ds.take 1 ++ tail ++ 'e' :: exponentText (d.point - 1)

def text (x : Binary64) : String :=
  if x.isNan then "nan"
  else
    let sign := if x.isNegative then "-" else ""
    if !x.isFinite then sign ++ "inf"
    else if x.magnitude = 0 then sign ++ "0.0"
    else sign ++ String.ofList x.shortest.text

end EventEnvelope.Binary64
