import EventEnvelope.Failure

/-!
The trees that the binary form can express, and the value that each stands for. Addresses, symbols
and integers beyond 64 bits travel as extension values under codes of their own; structs travel as
maps.
-/

namespace EventEnvelope

inductive Wire
  | null
  | flag (b : Bool)
  | integer (n : Int)
  | text (s : CodeText)
  | ext (code : Nat) (bs : Bytes)
  | array (xs : List Wire)
  | map (entries : List (Wire × Wire))

namespace Wire

def addressCode : Nat := 1

def symbolCode : Nat := 2

def integerCode : Nat := 3

/-- The integers that need no extension: those of a signed or an unsigned 64-bit word. -/
def isNative (n : Int) : Bool := -0x8000000000000000 ≤ n && n < 0x10000000000000000

/-- A larger integer carries its two's complement bytes. -/
def ofInt (n : Int) : Wire :=
  if isNative n then integer n else ext integerCode (Bytes.ofInt (Bytes.signedWidth n) n)

/-- A text whose kind travels as an extension code. -/
def ofTyped (code : Nat) (s : CodeText) : Except Failure Wire :=
  match Utf8.encode? s with
  | some bs => .ok (ext code bs)
  | none => .error .unencodable

/-- A text keeps its kind only if it is an address or a symbol. -/
def ofText : Text → Except Failure Wire
  | .address a => ofTyped addressCode a.text
  | .symbol s => ofTyped symbolCode s.text
  | t => .ok (text t.carried)

def ofValue : Value → Except Failure Wire
  | .flag b => .ok (flag b)
  | .number n => .ok (ofInt n)
  | .symbol s => ofTyped symbolCode s.text
  | .address a => ofTyped addressCode a.text

def ofFields : List (Field × Value) → Except Failure (List (Wire × Wire))
  | [] => .ok []
  | (f, v) :: r =>
    match ofValue v with
    | .error e => .error e
    | .ok w => (ofFields r).map ((text f.name, w) :: ·)

def structName : String := "$struct"

def structFields : String := "fields"

def ofStruct (s : LegacyStruct) : Except Failure Wire :=
  (ofFields s.entries).map fun fields =>
    map [(text structName, text s.kind.name), (text structFields, map fields)]

/-- Arrays and maps cannot serve as keys. -/
def isKey : Wire → Bool
  | array _ | map _ => false
  | _ => true

mutual

/-- The wire form of a value. Doubles, bytes, sets and what only foreign writers produce have
none, nor has an address or a symbol with a surrogate. -/
def ofDatum : Datum → Except Failure Wire
  | .null => .ok null
  | .flag b => .ok (flag b)
  | .number n => .ok (ofInt n)
  | .text t => ofText t
  | .struct s => ofStruct s
  | .list xs => (ofData xs).map array
  | .tuple xs => (ofData xs).map array
  | .map es => (ofEntries es).map map
  | .ext _ bs => .error (.encoding (.unserializable (.bytes bs)))
  | d => .error (.encoding (.unserializable d))

def ofData : List Datum → Except Failure (List Wire)
  | [] => .ok []
  | d :: r =>
    match ofDatum d with
    | .error e => .error e
    | .ok w => (ofData r).map (w :: ·)

def ofEntries : List (Datum × Datum) → Except Failure (List (Wire × Wire))
  | [] => .ok []
  | (k, v) :: r =>
    match ofDatum k with
    | .error e => .error e
    | .ok kw =>
      match ofDatum v with
      | .error e => .error e
      | .ok vw =>
        if kw.isKey then (ofEntries r).map ((kw, vw) :: ·)
        else .error (.misuse .notHashable)

end

/-- The value of an extension. Unknown codes are kept as they are; negative ones are not given
out. -/
def ofExt (code : Int) (bs : Bytes) : Except DecodeFault Datum :=
  let decoded (wrap : CodeText → Datum) : Except DecodeFault Datum :=
    match Utf8.decode? bs with
    | some s => .ok (wrap s)
    | none => .error .invalidText
  if code = addressCode then decoded fun s => .address ⟨s⟩
  else if code = symbolCode then decoded fun s => .symbol ⟨s⟩
  else if code = integerCode then .ok (.number bs.toInt)
  else if code < 0 then .error .malformed
  else .ok (.ext code.toNat bs)

end Wire

end EventEnvelope
