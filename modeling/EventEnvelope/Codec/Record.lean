import EventEnvelope.Document.Fields
import EventEnvelope.Envelope
import EventEnvelope.Report
import EventEnvelope.Wire.Reader
import EventEnvelope.Wire.Writer

/-!
Published records as bytes: channel and payload, for standardized and older records alike. A reader
restores structs wherever a payload holds them; topics come back as plain text.
-/

namespace EventEnvelope

namespace LegacyStruct

def unknownName (name : Datum) : LogRecord where
  level := .warning
  source := .codec
  text := "Unknown legacy struct " ++ name.inspect ++ " -- leaving as dict."

/-- The kind that a struct's name denotes, if it denotes one. -/
def kindOf (name : Datum) : Except Failure (Option LegacyKind) :=
  if name.isHashable then .ok (name.proper?.bind LegacyKind.ofName?)
  else .error (.misuse .notHashable)

def ofFields (kind : LegacyKind) (fields : Document) : Except Failure LegacyStruct :=
  if fields.any fun e => e.1.content?.isNone then .error (.misuse .fieldName)
  else match kind.read fields with
    | .ok s => .ok s
    | .error faults => .error (.invalid faults)

mutual

/-- A value with its structs restored. A struct of unknown name stays a map, with all that is in
it. -/
def restore : Datum → Reported Datum
  | .tuple xs => return .tuple (← restoreAll xs)
  | .ext code bs => return .tuple [.number code, .bytes bs]
  | .map es => do
    match Datum.get? es Wire.structName, restoredFields? es with
    | some name, some fields =>
      match ← Reported.of (kindOf name) with
      | none =>
        Reported.report (unknownName name)
        return .map es
      | some kind => return .struct (← Reported.of (ofFields kind (← fields)))
    | _, _ => return .map (← restoreValues es)
  | d => return d

def restoreAll : List Datum → Reported (List Datum)
  | [] => return []
  | d :: r => do
    let x ← restore d
    let xs ← restoreAll r
    return x :: xs

def restoreValues : List (Datum × Datum) → Reported (List (Datum × Datum))
  | [] => return []
  | (k, v) :: r => do
    let x ← restore v
    let xs ← restoreValues r
    return (k, x) :: xs

def restoredFields? : List (Datum × Datum) → Option (Reported Document)
  | [] => none
  | (k, v) :: r =>
    if k.content? = some (.proper Wire.structFields) then
      match v with
      | .map fs => some (restoreValues fs)
      | _ => some (throw .notMap)
    else restoredFields? r

end

end LegacyStruct

namespace Publication

def encode (p : Publication) : Except Failure Bytes :=
  Wire.encode (.list [.tuple p.channel, p.payload])

def decode (bs : Bytes) : Reported Publication := do
  match Wire.decode bs with
  | .error fault => throw (.undecodable fault)
  | .ok d =>
    match d.elements? with
    | none => throw (.misuse .notIterable)
    | some [channel, payload] =>
      let some elements := channel.elements? | throw (.misuse .notIterable)
      return ⟨elements, ← LegacyStruct.restore payload⟩
    | some _ => throw .badValue

end Publication

end EventEnvelope
