import EventEnvelope.Json
import EventEnvelope.Datum.Display

/-!
The compact written form of a tree, in ASCII alone: no blanks, and escapes for every code point
outside the printable range, surrogates among them.
-/

namespace EventEnvelope.Json

def unitEscape (n : Nat) : List Char := '\x5c' :: 'u' :: Quoted.hex 4 n

/-- Characters beyond the basic plane take two code units. -/
def numberedEscape (n : Nat) : List Char :=
  if n < 0x10000 then unitEscape n
  else unitEscape (0xd800 + (n - 0x10000) / 0x400) ++ unitEscape (0xdc00 + (n - 0x10000) % 0x400)

def writeChar (c : Char) : List Char :=
  if c = '\x22' || c = '\x5c' then ['\x5c', c]
  else if c = '\n' then ['\x5c', 'n']
  else if c = '\r' then ['\x5c', 'r']
  else if c = '\t' then ['\x5c', 't']
  else if c = '\x0c' then ['\x5c', 'f']
  else if c = '\x08' then ['\x5c', 'b']
  else if 0x20 ≤ c.toNat && c.toNat ≤ 0x7e then [c]
  else numberedEscape c.toNat

def writePoint : CodePoint → List Char
  | .char c => writeChar c
  | .surrogate u => unitEscape u.toNat

def writeText (s : CodeText) : List Char := '\x22' :: s.points.flatMap writePoint ++ ['\x22']

def writeReal (x : Binary64) : List Char :=
  if x.isNan then "NaN".toList
  else if x.isFinite then x.text.toList
  else if x.isNegative then "-Infinity".toList
  else "Infinity".toList

mutual

def write : Json → List Char
  | null => "null".toList
  | flag true => "true".toList
  | flag false => "false".toList
  | integer n => (Datum.numberText n).toList
  | real x => writeReal x
  | text s => writeText s
  | array xs => '[' :: writeElements xs ++ [']']
  | object ms => '\x7b' :: writeMembers ms ++ ['\x7d']

def writeElements : List Json → List Char
  | [] => []
  | [j] => write j
  | j :: r => write j ++ ',' :: writeElements r

def writeMembers : List (CodeText × Json) → List Char
  | [] => []
  | [(k, j)] => writeText k ++ ':' :: write j
  | (k, j) :: r => writeText k ++ ':' :: (write j ++ ',' :: writeMembers r)

end

def render (j : Json) : String := String.ofList (write j)

end EventEnvelope.Json
