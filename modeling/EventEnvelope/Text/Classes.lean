import EventEnvelope.Text.CodeText

/-!
Classes of characters that the library's rules mention: blanks, decimal digits of every script, and
the alphabet of symbols.
-/

namespace EventEnvelope.Text

def inRanges (ranges : List (Nat × Nat)) (n : Nat) : Bool :=
  ranges.any fun r => r.1 ≤ n && n ≤ r.2

/-- White space by the Unicode property of that name. -/
def isBlank (c : Char) : Bool :=
  inRanges [(0x09, 0x0d), (0x20, 0x20), (0x85, 0x85), (0xa0, 0xa0), (0x1680, 0x1680),
    (0x2000, 0x200a), (0x2028, 0x2029), (0x202f, 0x202f), (0x205f, 0x205f), (0x3000, 0x3000)]
    c.toNat

/-- The zero of each run of ten decimal digits (general category Nd). -/
def digitZeros : List Nat :=
  [0x30, 0x660, 0x6f0, 0x7c0, 0x966, 0x9e6, 0xa66, 0xae6, 0xb66, 0xbe6, 0xc66, 0xce6, 0xd66, 0xde6,
    0xe50, 0xed0, 0xf20, 0x1040, 0x1090, 0x17e0, 0x1810, 0x1946, 0x19d0, 0x1a80, 0x1a90, 0x1b50,
    0x1bb0, 0x1c40, 0x1c50, 0xa620, 0xa8d0, 0xa900, 0xa9d0, 0xa9f0, 0xaa50, 0xabf0, 0xff10, 0x104a0,
    0x10d30, 0x11066, 0x110f0, 0x11136, 0x111d0, 0x112f0, 0x11450, 0x114d0, 0x11650, 0x116c0,
    0x11730, 0x118e0, 0x11950, 0x11c50, 0x11d50, 0x11da0, 0x16a60, 0x16ac0, 0x16b50, 0x1d7ce,
    0x1d7d8, 0x1d7e2, 0x1d7ec, 0x1d7f6, 0x1e140, 0x1e2f0, 0x1e950, 0x1fbf0]

def digitValue? (c : Char) : Option Nat :=
  (digitZeros.find? fun z => z ≤ c.toNat && c.toNat < z + 10).map fun z => c.toNat - z

/-- Letters and digits of ASCII and the underscore. -/
def isSymbolChar (c : Char) : Bool :=
  c.isAlphanum || c == '_'

/-- The alphabet of symbols as a rule on a whole text. -/
def isSymbolText (s : String) : Bool :=
  !s.toList.isEmpty && s.toList.all isSymbolChar

/-- A surrogate lies outside every alphabet. -/
def isSymbol (s : CodeText) : Bool := s.proper?.any isSymbolText

/-- The upper-case form of a character, when ASCII letters spell it. Outside ASCII only the sharp s,
the dotless i, the long s and seven Latin ligatures have such a form. -/
def asciiUpper? (c : Char) : Option (List Char) :=
  if c.toNat < 128 then some [c.toUpper]
  else match c.toNat with
    | 0xdf => some ['S', 'S']
    | 0x131 => some ['I']
    | 0x17f => some ['S']
    | 0xfb00 => some ['F', 'F']
    | 0xfb01 => some ['F', 'I']
    | 0xfb02 => some ['F', 'L']
    | 0xfb03 => some ['F', 'F', 'I']
    | 0xfb04 => some ['F', 'F', 'L']
    | 0xfb05 => some ['S', 'T']
    | 0xfb06 => some ['S', 'T']
    | _ => none

def upper? : List Char → Option (List Char)
  | [] => some []
  | c :: r => do return (← asciiUpper? c) ++ (← upper? r)

end EventEnvelope.Text
