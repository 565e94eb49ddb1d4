import EventEnvelope.Bytes
import EventEnvelope.Text.CodeText
import EventEnvelope.Text.Hidden

/-!
Quoted texts and byte strings as messages show them. The apostrophe is the quotation mark unless
the text holds apostrophes and no double quotes; what cannot be shown is written by its number, a
surrogate among it.
-/

namespace EventEnvelope.Quoted

def apostrophe : Char := '\x27'

def doubleQuote : Char := '\x22'

def backslash : Char := '\x5c'

/-- The low `width` hexadecimal digits of a number. -/
def hex (width n : Nat) : List Char :=
  let ds := Nat.toDigits 16 n
  List.replicate (width - ds.length) '0' ++ ds

def mark (apostrophes doubleQuotes : Bool) : Char :=
  if apostrophes && !doubleQuotes then doubleQuote else apostrophe

/-- Escapes that texts and byte strings share. -/
def escape? (q c : Char) : Option (List Char) :=
  if c = q || c = backslash then some [backslash, c]
  else if c = '\n' then some [backslash, 'n']
  else if c = '\r' then some [backslash, 'r']
  else if c = '\t' then some [backslash, 't']
  else none

def numbered (n : Nat) : List Char :=
  if n < 0x100 then backslash :: 'x' :: hex 2 n
  else if n < 0x10000 then backslash :: 'u' :: hex 4 n
  else backslash :: 'U' :: hex 8 n

def textChar (q c : Char) : List Char :=
  match escape? q c with
  | some cs => cs
  | none => if Text.isHidden c then numbered c.toNat else [c]

def textPoint (q : Char) : CodePoint → List Char
  | .char c => textChar q c
  | .surrogate u => numbered u.toNat

def text (s : CodeText) : String :=
  let ps := s.points
  let q := mark (ps.contains (.char apostrophe)) (ps.contains (.char doubleQuote))
  String.ofList (q :: ps.flatMap (textPoint q) ++ [q])

/-- A byte is shown as itself when it is a printable character of ASCII. -/
def byteChar (q : Char) (b : UInt8) : List Char :=
  let c := Char.ofNat b.toNat
  match escape? q c with
  | some cs => cs
  | none => if b < 0x20 || 0x7f ≤ b then backslash :: 'x' :: hex 2 b.toNat else [c]

def bytes (bs : Bytes) : String :=
  let q := mark (bs.contains 0x27) (bs.contains 0x22)
  String.ofList ('b' :: q :: bs.flatMap (byteChar q) ++ [q])

end EventEnvelope.Quoted
