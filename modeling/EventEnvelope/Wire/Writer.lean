import EventEnvelope.Wire

/-!
The bytes of a wire tree, in the shortest form of each kind. Trees deeper than the format's writer
allows, counts beyond 32 bits and texts with surrogates have no bytes; of several faults the first
one is told.
-/

namespace EventEnvelope.Wire

def byte (n : Nat) : UInt8 := UInt8.ofNat n

/-- How many levels a tree may have below its root. -/
def writerLevels : Nat := 511

/-- A count behind the tag of its width; small counts share a byte with their tag. -/
structure CountTags where
  small : Nat
  smallLimit : Nat
  one : Option Nat
  two : Nat
  four : Nat

def textTags : CountTags := ⟨0xa0, 32, some 0xd9, 0xda, 0xdb⟩

def arrayTags : CountTags := ⟨0x90, 16, none, 0xdc, 0xdd⟩

def mapTags : CountTags := ⟨0x80, 16, none, 0xde, 0xdf⟩

def CountTags.head (t : CountTags) (n : Nat) : Option Bytes :=
  if n < t.smallLimit then some [byte (t.small + n)]
  else match t.one, decide (n < 0x100) with
    | some one, true => some [byte one, byte n]
    | _, _ =>
      if n < 0x10000 then some (byte t.two :: Bytes.ofNat 2 n)
      else if n < 0x100000000 then some (byte t.four :: Bytes.ofNat 4 n)
      else none

def writeNatural (n : Nat) : Bytes :=
  if n < 0x80 then [byte n]
  else if n < 0x100 then 0xcc :: Bytes.ofNat 1 n
  else if n < 0x10000 then 0xcd :: Bytes.ofNat 2 n
  else if n < 0x100000000 then 0xce :: Bytes.ofNat 4 n
  else 0xcf :: Bytes.ofNat 8 n

def writeNegative (n : Int) : Bytes :=
  if -0x20 ≤ n then Bytes.ofInt 1 n
  else if -0x80 ≤ n then 0xd0 :: Bytes.ofInt 1 n
  else if -0x8000 ≤ n then 0xd1 :: Bytes.ofInt 2 n
  else if -0x80000000 ≤ n then 0xd2 :: Bytes.ofInt 4 n
  else 0xd3 :: Bytes.ofInt 8 n

def writeInteger (n : Int) : Bytes :=
  if 0 ≤ n then writeNatural n.toNat else writeNegative n

/-- The tags of extensions whose length is implied. -/
def fixedExtTag? : Nat → Option UInt8
  | 1 => some 0xd4
  | 2 => some 0xd5
  | 4 => some 0xd6
  | 8 => some 0xd7
  | 16 => some 0xd8
  | _ => none

def extHead (length : Nat) : Option Bytes :=
  match fixedExtTag? length with
  | some tag => some [tag]
  | none =>
    if length < 0x100 then some (0xc7 :: Bytes.ofNat 1 length)
    else if length < 0x10000 then some (0xc8 :: Bytes.ofNat 2 length)
    else if length < 0x100000000 then some (0xc9 :: Bytes.ofNat 4 length)
    else none

/-- One part behind another. The first part without bytes tells why there are none. -/
def joined (first rest : Except Failure Bytes) : Except Failure Bytes :=
  match first, rest with
  | .ok bs, .ok cs => .ok (bs ++ cs)
  | .ok _, .error e => .error e
  | .error e, _ => .error e

/-- Bytes behind a head that announces them, where there is one. -/
def headed (head : Option Bytes) (rest : Except Failure Bytes) : Except Failure Bytes :=
  joined (match head with
    | some bs => .ok bs
    | none => .error .badValue) rest

def writeText (s : CodeText) : Except Failure Bytes :=
  match Utf8.encode? s with
  | some bs => headed (textTags.head bs.length) (.ok bs)
  | none => .error .unencodable

def writeExt (code : Nat) (bs : Bytes) : Except Failure Bytes :=
  headed (extHead bs.length) (.ok (byte code :: bs))

mutual

/-- The bytes of a tree with at most so many levels below its root. -/
def write (levels : Nat) : Wire → Except Failure Bytes
  | null => .ok [0xc0]
  | flag false => .ok [0xc2]
  | flag true => .ok [0xc3]
  | integer n => .ok (writeInteger n)
  | text s => writeText s
  | ext code bs => writeExt code bs
  | array xs => headed (arrayTags.head xs.length) (writeAll levels xs)
  | map es => headed (mapTags.head es.length) (writeEntries levels es)

def writeAll (levels : Nat) : List Wire → Except Failure Bytes
  | [] => .ok []
  | x :: r =>
    match levels with
    | 0 => .error .badValue
    | inner + 1 => joined (write inner x) (writeAll levels r)

def writeEntries (levels : Nat) : List (Wire × Wire) → Except Failure Bytes
  | [] => .ok []
  | (k, v) :: r =>
    match levels with
    | 0 => .error .badValue
    | inner + 1 => joined (write inner k) (joined (write inner v) (writeEntries levels r))

end

def encode (d : Datum) : Except Failure Bytes :=
  match ofDatum d with
  | .error e => .error e
  | .ok w => write writerLevels w

end EventEnvelope.Wire
