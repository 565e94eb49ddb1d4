import EventEnvelope.Text.Classes

/-!
Whole numbers written as text, with blanks around. A clock's text is a sign and digits of any script
in groups that single underscores join. A field's text is a plain numeral (a minus or nothing, then
zero alone or ASCII digits from a nonzero one on) dressed with a plus, leading zeros, underscores or
a fraction of zeros: reading it takes the dress off and then reads the plain numeral.
-/

namespace EventEnvelope.Numeral

def trim (outer : Char → Bool) (cs : List Char) : List Char :=
  ((cs.dropWhile outer).reverse.dropWhile outer).reverse

/-- The digits of a numeral without the single underscores between them. -/
def ungroup (digit? : Char → Option Nat) (afterDigit : Bool) : List Char → Option (List Nat)
  | [] => if afterDigit then some [] else none
  | c :: r =>
    match digit? c with
    | some d => (ungroup digit? true r).map (d :: ·)
    | none => if c = '_' && afterDigit then ungroup digit? false r else none

def ofDigits (ds : List Nat) : Nat := ds.foldl (fun n d => 10 * n + d) 0

/-- The number of digits, or of the characters of a plain numeral, beyond which none is read. -/
def longest : Nat := 4300

def unsigned? (digit? : Char → Option Nat) (cs : List Char) : Option Nat :=
  (ungroup digit? false cs).bind fun ds =>
    if ds.length ≤ longest then some (ofDigits ds) else none

def signed? (unsigned : List Char → Option Nat) : List Char → Option Int
  | '+' :: r => (unsigned r).map Int.ofNat
  | '-' :: r => (unsigned r).map fun n => -(n : Int)
  | cs => (unsigned cs).map Int.ofNat

def asciiDigit? (c : Char) : Option Nat :=
  if c.isDigit then some (c.toNat - '0'.toNat) else none

/-- A plus in front says nothing, and no minus may follow it. -/
def withoutPlus? : List Char → Option (List Char)
  | '+' :: '-' :: _ => none
  | '+' :: r => some r
  | cs => some cs

/--
What is left behind leading zeros, where `last` is the character read last. Underscores among the
zeros are skipped with them, and a digit that counts or a minus opens the rest; a point or the end
leaves `last` to stand before it.
-/
def afterZeros (last : Char) : List Char → Option (List Char)
  | [] => some [last]
  | c :: r =>
    if c = '0' || c = '_' then afterZeros c r
    else if c.isDigit || c = '-' then some (c :: r)
    else if c = '.' then some (last :: c :: r)
    else none

/-- A magnitude without its leading zeros; it has to open with a digit. -/
def withoutZeros? : List Char → Option (List Char)
  | [] => none
  | c :: r => if c = '0' then afterZeros c r else if c.isDigit then some (c :: r) else none

def signedWithoutZeros? : List Char → Option (List Char)
  | '-' :: r => (withoutZeros? r).map ('-' :: ·)
  | cs => withoutZeros? cs

/-- A numeral without its fraction, where that is a point and one or more zeros. -/
def withoutFraction (cs : List Char) : List Char :=
  match cs.dropWhile (· != '.') with
  | _ :: z :: zeros =>
    if (z :: zeros).all (· == '0') then cs.takeWhile (· != '.') else cs
  | _ => cs

/-- A numeral without its underscores, each of which stands between two other characters. -/
def joined? (inside : Bool) : List Char → Option (List Char)
  | [] => if inside then some [] else none
  | c :: r =>
    if c = '_' then (if inside then joined? false r else none)
    else (joined? true r).map (c :: ·)

/-- The numeral in a field's text, its dress taken off. -/
def ofFieldText? (s : String) : Option (List Char) :=
  (withoutPlus? (trim Text.isBlank s.toList)).bind fun numeral =>
    (signedWithoutZeros? numeral).bind fun counted => joined? false (withoutFraction counted)

/-- The digits that a magnitude opens with; no digit follows an opening zero. -/
def openingDigits : List Char → List Char
  | '0' :: _ => ['0']
  | cs => cs.takeWhile Char.isDigit

/-- Whether the sign and the opening digits exceed what is read, whatever follows them. -/
def tooLong : List Char → Bool
  | '-' :: r => longest ≤ (openingDigits r).length
  | cs => longest < (openingDigits cs).length

/-- A magnitude is its opening digits and nothing else. -/
def magnitude? (cs : List Char) : Option Nat :=
  if cs = openingDigits cs then unsigned? asciiDigit? cs else none

def plain? : List Char → Option Int
  | '-' :: r => (magnitude? r).map fun n => -(n : Int)
  | cs => (magnitude? cs).map Int.ofNat

/-- The whole number that a clock's text denotes; digits of any script count. -/
def ofClockText? (s : String) : Option Int :=
  signed? (unsigned? Text.digitValue?) (trim Text.isBlank s.toList)

/-- The whole number that a clock's bytes spell in ASCII. -/
def ofClockBytes? (bs : List UInt8) : Option Int :=
  let blank (c : Char) : Bool := c = ' ' || (0x09 ≤ c.toNat && c.toNat ≤ 0x0d)
  signed? (unsigned? asciiDigit?) (trim blank (bs.map fun b => Char.ofNat b.toNat))

end EventEnvelope.Numeral
