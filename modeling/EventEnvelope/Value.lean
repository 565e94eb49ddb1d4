import EventEnvelope.Text.CodeText

/-!
The four kinds of value that an event carries. An address is opaque text of the host; a symbol is
interned short text; integers lie in the range of signed and unsigned 128-bit words.
-/

namespace EventEnvelope

structure Address where
  text : CodeText
deriving DecidableEq, Repr

structure Symbol where
  text : CodeText
deriving DecidableEq, Repr

inductive Value
  | flag (b : Bool)
  | number (n : Int)
  | symbol (s : Symbol)
  | address (a : Address)
deriving DecidableEq, Repr

namespace Value

/-- The integers that fit a signed or an unsigned word of 128 bits: amounts and voting powers. -/
def inRange (n : Int) : Bool :=
  -0x80000000000000000000000000000000 ≤ n && n < 0x100000000000000000000000000000000

end Value

end EventEnvelope
