import EventEnvelope.Datum.Order
import EventEnvelope.Report

/-!
Schema versions: whether a consumer understands a version, and what changes between two of them. A
version newer than the current one is never understood; that is reported, not refused.
-/

namespace EventEnvelope.Version

/-- The version that this library stamps. -/
def current : Int := 1

/-- Whether a version is not newer than the current one. Only what can be ordered with numbers can
be a version. -/
def isCompatible (current : Int) (version : Datum) : Except Failure Bool :=
  match Datum.atLeast? (.number current) version with
  | some b => .ok b
  | none => .error (.misuse .notComparable)

def warning (current : Int) (version topic : Datum) : LogRecord where
  level := .warning
  source := .version
  text := "Incompatible schema version: event has v" ++ version.display ++ ", current is v"
    ++ Datum.numberText current ++ ". event_type=" ++ topic.display
    ++ ". Consumer should upgrade before decoding."

/-- Compatibility, with a warning about a version that is too new. -/
def check (current : Int) (version topic : Datum) : Reported Bool := do
  let compatible ← Reported.of (isCompatible current version)
  if !compatible then Reported.report (warning current version topic)
  return compatible

/-- The steps written down for a known transition. -/
def steps : List ((Int × Int) × List String) :=
  let batches := ["Add batch operation support", "Include gas usage metadata"]
  [((1, 2), ["Add metadata fields for enhanced indexing",
      "Update event type symbols for consistency"]),
    ((1, 3), batches), ((2, 3), batches)]

def steps? (source target : Datum) : Option (List String) :=
  (steps.find? fun s =>
    Datum.same (.number s.1.1) source && Datum.same (.number s.1.2) target).map Prod.snd

/-- What changes on the way from one version to a later one; nothing when the target is not later.
-/
def migrationPath (source target : Datum) : Except Failure (Option (List CodeText)) :=
  match Datum.atLeast? source target with
  | none => .error (.misuse .notComparable)
  | some true => .ok none
  | some false =>
    if !(source.isHashable && target.isHashable) then .error (.misuse .notHashable)
    else match steps? source target with
      | some known => .ok (some (known.map CodeText.proper))
      | none => .ok (some ["Migrate from v" ++ source.display ++ " to v" ++ target.display])

end EventEnvelope.Version
