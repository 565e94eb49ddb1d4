import EventEnvelope.Surroundings

/-!
Admitting outside values as typed ones. Nothing is coerced: a number is not a flag, a numeral is
not a number, and free text becomes a symbol only within the alphabet and the length limit.
-/

namespace EventEnvelope.Admission

/-- Interning a text that is not a symbol yet. -/
def symbolOf (limit : Int) (t : Text) : Except EncodingFault Symbol :=
  if t.content.isEmpty then .error .emptySymbol
  else if limit < t.content.length then .error (.longSymbol t.content limit)
  else if Text.isSymbol t.content then .ok ⟨t.shown⟩
  else .error (.symbolAlphabet t)

def symbol (limit : Int) : Datum → Except EncodingFault Symbol
  | .text (.symbol s) => .ok s
  | .text t => symbolOf limit t
  | d => .error (.notText d)

/-- An identity is any text that is neither empty nor a symbol. -/
def address : Datum → Except EncodingFault Address
  | .text (.address a) => .ok a
  | .text (.symbol s) => .error (.notAddress (.symbol s))
  | .text t => if t.content.isEmpty then .error (.notAddress (.text t)) else .ok ⟨t.shown⟩
  | d => .error (.notAddress d)

def integer : Datum → Except EncodingFault Int
  | .number n => if Value.inRange n then .ok n else .error (.outOfRange n)
  | d => .error (.notInteger d)

def flag : Datum → Except EncodingFault Bool
  | .flag b => .ok b
  | d => .error (.notFlag d)

/-- An element of an event. Plain text is interned; identities have to be addresses already. -/
def value (limit : Int) : Datum → Except EncodingFault Value
  | .flag b => .ok (.flag b)
  | .number n => (integer (.number n)).map .number
  | .text (.address a) => .ok (.address a)
  | .text (.symbol s) => .ok (.symbol s)
  | .text t => (symbolOf limit t).map .symbol
  | d => .error (.unsupported d)

end EventEnvelope.Admission

namespace EventEnvelope.Build

/-- The length limit that a value will be held against. The settings are consulted only for text
that has to be interned. -/
def symbolLimit (interned : Bool) : Build Int :=
  if interned then do return (← settings).symbolMaxLength else pure 0

def isFreeText : Datum → Bool
  | .text (.symbol _) => false
  | .text _ => true
  | _ => false

def symbol (d : Datum) : Build Symbol := do
  let limit ← symbolLimit (isFreeText d)
  admitted (Admission.symbol limit d)

/-- Text that becomes a symbol when it stands among an event's values. -/
def isUntypedText (d : Datum) : Bool := isFreeText d && d.toValue?.isNone

def value (d : Datum) : Build Value := do
  let limit ← symbolLimit (isUntypedText d)
  admitted (Admission.value limit d)

def values : List Datum → Build (List Value)
  | [] => pure []
  | d :: r => do
    let v ← value d
    let vs ← values r
    return v :: vs

/-- The topic that a caller names, by member, identifier or semantic name. -/
def topic : Datum → Build Topic
  | .text (.topic t) => pure t
  | .text t =>
    match t.content.proper?.bind Topic.resolve? with
    | some found => pure found
    | none => throw (.unknownTopic (.text t))
  | d => throw (.unknownTopic d)

end EventEnvelope.Build
