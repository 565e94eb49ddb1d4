import EventEnvelope.Datum.Order
import EventEnvelope.Wire

/-!
Reading the binary form. Every tag of the format is read, whether or not the writer uses it; faults
are reported at the first byte that shows them, and nothing may follow the value.
-/

namespace EventEnvelope.Wire

/-- How many arrays and maps may be open at once. -/
def readerLevels : Nat := 1024

/-- Reading from the front of a message; the state is what is left of it. -/
abbrev Read := StateT Bytes (Except DecodeFault)

def refuse {α : Type} (fault : DecodeFault) : Read α := fun _ => .error fault

def take (n : Nat) : Read Bytes := fun bs =>
  let (front, rest) := bs.splitAt n
  if front.length = n then .ok (front, rest) else .error .malformed

def natural (width : Nat) : Read Nat := do
  return (← take width).toNat

def signed (width : Nat) : Read Int := do
  return (← take width).toInt

/-- What the first bytes of a value announce: all of it, or how many parts are to follow. -/
inductive Head
  | whole (d : Datum)
  | array (count : Nat)
  | map (count : Nat)

def unsignedHead (width : Nat) : Read Head := do
  return .whole (.number (← natural width))

def signedHead (width : Nat) : Read Head := do
  return .whole (.number (← signed width))

def textBody (length : Nat) : Read Head := do
  match Utf8.decode? (← take length) with
  | some s => return .whole (.plain s)
  | none => refuse .invalidText

def bytesBody (length : Nat) : Read Head := do
  return .whole (.bytes (← take length))

def timestampOf (seconds : Int) (nanoseconds : Nat) : Except DecodeFault Datum :=
  if nanoseconds < 1000000000 then .ok (.timestamp seconds nanoseconds) else .error .malformed

def timestamp (bs : Bytes) : Except DecodeFault Datum :=
  match bs.length with
  | 4 => timestampOf bs.toNat 0
  | 8 => timestampOf (bs.toNat % 0x400000000 : Nat) (bs.toNat / 0x400000000)
  | 12 => timestampOf (Bytes.toInt (bs.drop 4)) (Bytes.toNat (bs.take 4))
  | _ => .error .malformed

def timestampCode : Int := -1

def extValue (code : Int) (body : Bytes) : Except DecodeFault Datum :=
  if code = timestampCode then timestamp body else ofExt code body

def extBody (length : Nat) : Read Head := do
  let code ← signed 1
  let body ← take length
  match extValue code body with
  | .ok d => return .whole d
  | .error fault => refuse fault

/-- A body whose length stands before it. -/
def sized (body : Nat → Read Head) (width : Nat) : Read Head := do
  body (← natural width)

def counted (head : Nat → Head) (width : Nat) : Read Head := do
  return head (← natural width)

def single : Read Head := do
  return .whole (.real (Binary64.ofBinary32 (← natural 4)))

def double : Read Head := do
  return .whole (.real ⟨UInt64.ofNat (← natural 8)⟩)

/-- The part of a value up to its first nested value, given its tag. -/
def headOf (tag : Nat) : Read Head :=
  if tag < 0x80 then return .whole (.number tag)
  else if tag < 0x90 then return .map (tag - 0x80)
  else if tag < 0xa0 then return .array (tag - 0x90)
  else if tag < 0xc0 then textBody (tag - 0xa0)
  else if 0xe0 ≤ tag then return .whole (.number ((tag : Int) - 0x100))
  else match tag with
    | 0xc0 => return .whole .null
    | 0xc2 => return .whole (.flag false)
    | 0xc3 => return .whole (.flag true)
    | 0xc4 => sized bytesBody 1
    | 0xc5 => sized bytesBody 2
    | 0xc6 => sized bytesBody 4
    | 0xc7 => sized extBody 1
    | 0xc8 => sized extBody 2
    | 0xc9 => sized extBody 4
    | 0xca => single
    | 0xcb => double
    | 0xcc => unsignedHead 1
    | 0xcd => unsignedHead 2
    | 0xce => unsignedHead 4
    | 0xcf => unsignedHead 8
    | 0xd0 => signedHead 1
    | 0xd1 => signedHead 2
    | 0xd2 => signedHead 4
    | 0xd3 => signedHead 8
    | 0xd4 => extBody 1
    | 0xd5 => extBody 2
    | 0xd6 => extBody 4
    | 0xd7 => extBody 8
    | 0xd8 => extBody 16
    | 0xd9 => sized textBody 1
    | 0xda => sized textBody 2
    | 0xdb => sized textBody 4
    | 0xdc => counted .array 2
    | 0xdd => counted .array 4
    | 0xde => counted .map 2
    | 0xdf => counted .map 4
    | _ => refuse .reservedByte

def head : Read Head := do
  headOf (← natural 1)

/-- Only plain texts and byte strings serve as keys. -/
def isReadableKey : Datum → Bool
  | .text (.plain _) | .bytes _ => true
  | _ => false

section Parts

variable (value : Read Datum)

def readAll : Nat → Read (List Datum)
  | 0 => return []
  | n + 1 => do
    let d ← value
    let ds ← readAll n
    return d :: ds

/-- So many pairs of key and value; a key is judged once its value has been read. -/
def readEntries : Nat → Read (List (Datum × Datum))
  | 0 => return []
  | n + 1 => do
    let k ← value
    let v ← value
    if isReadableKey k then
      let es ← readEntries n
      return (k, v) :: es
    else refuse .malformed

end Parts

/-- One value, inside at most so many open levels, from a message of `total` bytes. A count that the
message cannot hold is refused before its parts are read. -/
def read (total : Nat) : (levels : Nat) → Read Datum
  | 0 => do
    match ← head with
    | .whole d => return d
    | _ => refuse .tooDeep
  | inner + 1 => do
    match ← head with
    | .whole d => return d
    | .array count =>
      if total < count then refuse .malformed
      else return .tuple (← readAll (read total inner) count)
    | .map count =>
      if total / 2 < count then refuse .malformed
      else return .map (Datum.ofEntries (← readEntries (read total inner) count))

def decode (bs : Bytes) : Except DecodeFault Datum :=
  match read bs.length readerLevels bs with
  | .error e => .error e
  | .ok (d, []) => .ok d
  | .ok (_, _ :: _) => .error .trailingBytes

end EventEnvelope.Wire
