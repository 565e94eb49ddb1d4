import EventEnvelope.Admission
import EventEnvelope.Datum.Order

/-!
Metadata: a keyed copy of selected fields. Each key of the closed vocabulary stands for a non-empty
sequence of typed values and occurs at most once.
-/

namespace EventEnvelope

abbrev Metadata := List (MetadataKey × List Value)

namespace Metadata

/-- The key that a caller names by member or identifier. -/
def key (d : Datum) : Except EncodingFault MetadataKey :=
  match d.proper?.bind MetadataKey.ofId? with
  | some k => .ok k
  | none => .error (.unknownKey d)

/-- A mapping from encoded entries, in their order. -/
def ofEntries : List (MetadataKey × List Value) → Except EncodingFault Metadata :=
  let rec go (seen : Metadata) : List (MetadataKey × List Value) → Except EncodingFault Metadata
    | [] => .ok seen
    | e :: r =>
      if seen.any fun s => s.1 = e.1 then .error (.repeatedKey e.1) else go (seen ++ [e]) r
  go []

def toEntries (m : Metadata) : List (MetadataKey × List Datum) :=
  m.map fun e => (e.1, e.2.map Value.toDatum)

/-- A sequence of values; neither text nor bytes count as one. -/
def sequence? : Datum → Option (List Datum)
  | .text _ | .bytes _ => none
  | d => d.elements?

def lookup (mapping key : Datum) : Except Failure Datum :=
  match Metadata.key key with
  | .error fault => .error (.encoding fault)
  | .ok k =>
    match mapping with
    | .map es =>
      match Datum.get? es k.id with
      | some d => .ok d
      | none => .error .absentKey
    | _ => .error (.misuse .notIndexable)

/-- The first element of a value that holds exactly one. -/
def first : Datum → Except Failure Datum
  | .set _ => .error (.misuse .notIndexable)
  | .map es =>
    match Datum.find? es (.number 0) with
    | some d => .ok d
    | none => .error .absentKey
  | d =>
    match d.elements? with
    | some (x :: _) => .ok x
    | _ => .error .badValue

def lookupOne (mapping key : Datum) : Except Failure Datum :=
  match lookup mapping key with
  | .error e => .error e
  | .ok values =>
    match values.length? with
    | none => .error (.misuse .notMeasurable)
    | some 1 => first values
    | some n =>
      match Metadata.key key with
      | .error fault => .error (.encoding fault)
      | .ok k => .error (.manyValues k n)

end Metadata

namespace Build

/-- One field under its key, with the values made typed. -/
def metadataEntry (key : Datum) (values : List Datum) : Build (MetadataKey × List Value) := do
  let k ← admitted (Metadata.key key)
  if values.isEmpty then throw (.encoding (.noValues k))
  let vs ← Build.values values
  return (k, vs)

def metadataEntries : List (Datum × Datum) → Build (List (MetadataKey × List Value))
  | [] => pure []
  | (key, values) :: r => do
    let some xs := Metadata.sequence? values | throw (.encoding (.notSequence key values))
    let e ← metadataEntry key xs
    let es ← metadataEntries r
    return e :: es

def metadata : Datum → Build Metadata
  | .map es => do
    let entries ← metadataEntries es
    admitted (Metadata.ofEntries entries)
  | _ => throw .notMap

end Build

end EventEnvelope
