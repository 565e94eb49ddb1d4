import EventEnvelope.Json
import EventEnvelope.Number.Binary64

/-!
Reading JSON text. Besides the standard grammar the reader knows the names of the not-a-number and
of the two infinities. Escapes of a leading and a trailing surrogate in a row denote one character;
any other escape of a surrogate denotes that surrogate.
-/

namespace EventEnvelope.Json

/-- A value read from the front of a text, with what is left of it. -/
abbrev Parsed (α : Type) := Option (α × List Char)

def isSpace (c : Char) : Bool := c = ' ' || c = '\t' || c = '\n' || c = '\r'

def skip (cs : List Char) : List Char := cs.dropWhile isSpace

def hexDigit? (c : Char) : Option Nat :=
  if c.isDigit then some (c.toNat - '0'.toNat)
  else if 'a' ≤ c && c ≤ 'f' then some (c.toNat - 'a'.toNat + 10)
  else if 'A' ≤ c && c ≤ 'F' then some (c.toNat - 'A'.toNat + 10)
  else none

def unit? (a b c d : Char) : Option Nat := do
  return (((← hexDigit? a) * 16 + (← hexDigit? b)) * 16 + (← hexDigit? c)) * 16 + (← hexDigit? d)

/-- The code point of a UTF-16 unit that stands alone. -/
def pointOfUnit (n : Nat) : CodePoint :=
  if h : 0xd800 ≤ n ∧ n < 0xe000 then .surrogate ⟨⟨n - 0xd800, by omega⟩⟩ else .char (Char.ofNat n)

/-- The character that a leading and a trailing surrogate denote together. -/
def paired (leading trailing : Surrogate) : Char :=
  Char.ofNat (0x10000 + leading.offset * 0x400 + (trailing.offset - 0x400))

/-- A code point in front of a text's others. -/
def inFront (p : CodePoint) (ps : List CodePoint) : List CodePoint :=
  match p, ps with
  | .surrogate u, .surrogate v :: r =>
    if u.isLeading && !v.isLeading then .char (paired u v) :: r else p :: ps
  | _, _ => p :: ps

def shortEscape? : Char → Option Char
  | '\x22' => some '\x22'
  | '\x5c' => some '\x5c'
  | '/' => some '/'
  | 'b' => some '\x08'
  | 'f' => some '\x0c'
  | 'n' => some '\n'
  | 'r' => some '\r'
  | 't' => some '\t'
  | _ => none

/-- One more code point in front of those read behind it. -/
def Parsed.extend (p : CodePoint) : Parsed (List CodePoint) → Parsed (List CodePoint)
  | some (ps, rest) => some (inFront p ps, rest)
  | none => none

/-- The code points up to the closing mark of a text. -/
def spelling : List Char → Parsed (List CodePoint)
  | [] => none
  | '\x22' :: rest => some ([], rest)
  | '\x5c' :: 'u' :: a :: b :: c :: d :: rest =>
    match unit? a b c d with
    | some n => (spelling rest).extend (pointOfUnit n)
    | none => none
  | '\x5c' :: c :: rest =>
    match shortEscape? c with
    | some x => (spelling rest).extend (.char x)
    | none => none
  | c :: rest => if c.toNat < 0x20 then none else (spelling rest).extend (.char c)

def textBody (cs : List Char) : Parsed CodeText :=
  (spelling cs).map fun (ps, rest) => (.ofPoints ps, rest)

def spanDigits (cs : List Char) : List Char × List Char :=
  (cs.takeWhile Char.isDigit, cs.dropWhile Char.isDigit)

/-- The digits behind a decimal point, if there is one with digits behind it. -/
def fraction : List Char → List Char × List Char
  | '.' :: rest =>
    match spanDigits rest with
    | ([], _) => ([], '.' :: rest)
    | found => found
  | cs => ([], cs)

def exponentDigits (negative : Bool) (rest : List Char) : Option (Int × List Char) :=
  match spanDigits rest with
  | ([], _) => none
  | (ds, rest) =>
    let n := Nat.ofDigitChars 10 ds 0
    some (if negative then -(n : Int) else n, rest)

/-- The power of ten behind a mark of scientific notation, if there is one with digits. -/
def exponent? : List Char → Option (Int × List Char)
  | m :: cs =>
    if m = 'e' || m = 'E' then
      match cs with
      | '+' :: rest => exponentDigits false rest
      | '-' :: rest => exponentDigits true rest
      | rest => exponentDigits false rest
    else none
  | [] => none

/-- The digits before the point: a zero stands alone. -/
def whole : List Char → Option (List Char × List Char)
  | '0' :: rest => some (['0'], rest)
  | cs =>
    match spanDigits cs with
    | ([], _) => none
    | found => some found

/-- A number without its sign. Only a fraction or an exponent makes it a double. -/
def unsigned (negative : Bool) (cs : List Char) : Parsed Json :=
  match whole cs with
  | none => none
  | some (ds, cs) =>
    let (fs, cs) := fraction cs
    let digits := Nat.ofDigitChars 10 (ds ++ fs) 0
    match exponent? cs with
    | some (e, rest) => some (real (Binary64.ofDecimal negative digits (e - fs.length)), rest)
    | none =>
      if fs.isEmpty then some (integer (if negative then -(digits : Int) else digits), cs)
      else some (real (Binary64.ofDecimal negative digits (-fs.length)), cs)

def number : List Char → Parsed Json
  | '-' :: rest => unsigned true rest
  | cs => unsigned false cs

def scalar : List Char → Parsed Json
  | '\x22' :: rest => (textBody rest).map fun (s, rest) => (text s, rest)
  | 'n' :: 'u' :: 'l' :: 'l' :: rest => some (null, rest)
  | 't' :: 'r' :: 'u' :: 'e' :: rest => some (flag true, rest)
  | 'f' :: 'a' :: 'l' :: 's' :: 'e' :: rest => some (flag false, rest)
  | 'N' :: 'a' :: 'N' :: rest => some (real .nan, rest)
  | 'I' :: 'n' :: 'f' :: 'i' :: 'n' :: 'i' :: 't' :: 'y' :: rest =>
    some (real (.infinity false), rest)
  | '-' :: 'I' :: 'n' :: 'f' :: 'i' :: 'n' :: 'i' :: 't' :: 'y' :: rest =>
    some (real (.infinity true), rest)
  | cs => number cs

/-- A member's name with the colon behind it and the blanks around that. -/
def memberName : List Char → Parsed CodeText
  | '\x22' :: rest =>
    match textBody rest with
    | none => none
    | some (s, rest) =>
      match skip rest with
      | ':' :: rest => some (s, skip rest)
      | _ => none
  | _ => none

mutual

/-- One value. The first argument bounds the number of nested calls. -/
def value : Nat → List Char → Parsed Json
  | 0, _ => none
  | n + 1, '[' :: rest =>
    match skip rest with
    | ']' :: rest => some (array [], rest)
    | cs => (elements n cs).map fun (xs, rest) => (array xs, rest)
  | n + 1, '\x7b' :: rest =>
    match skip rest with
    | '\x7d' :: rest => some (object [], rest)
    | cs => (members n cs).map fun (ms, rest) => (object ms, rest)
  | _ + 1, cs => scalar cs

/-- The elements of an array that has some, up to its end. -/
def elements : Nat → List Char → Parsed (List Json)
  | 0, _ => none
  | n + 1, cs =>
    match value n cs with
    | none => none
    | some (j, cs) =>
      match skip cs with
      | ']' :: rest => some ([j], rest)
      | ',' :: rest => (elements n (skip rest)).map fun (js, rest) => (j :: js, rest)
      | _ => none

/-- The members of an object that has some, up to its end. -/
def members : Nat → List Char → Parsed (List (CodeText × Json))
  | 0, _ => none
  | n + 1, cs =>
    match memberName cs with
    | none => none
    | some (k, cs) =>
      match value n cs with
      | none => none
      | some (j, cs) =>
        match skip cs with
        | '\x7d' :: rest => some ([(k, j)], rest)
        | ',' :: rest => (members n (skip rest)).map fun (ms, rest) => ((k, j) :: ms, rest)
        | _ => none

end

/-- Enough nested calls for a text: every second one consumes a character. -/
def callBound (cs : List Char) : Nat := 2 * cs.length + 2

/-- The tree that a text spells, blanks around it allowed. -/
def parse? (s : String) : Option Json :=
  let cs := s.toList
  match value (callBound cs) (skip cs) with
  | some (j, rest) => if (skip rest).isEmpty then some j else none
  | none => none

end EventEnvelope.Json
