import EventEnvelope.Envelope
import EventEnvelope.Metadata

/-!
Building an envelope. A draft holds what the caller supplies, already typed; stamping adds the
identity, the clock value and the schema version, which callers cannot supply.
-/

namespace EventEnvelope

structure Draft where
  topic : Topic
  actor : Option Address
  data : List Value
  metadata : Metadata

namespace Draft

def actorDatum (d : Draft) : Datum :=
  match d.actor with
  | some a => .address a
  | none => .null

def stamped (d : Draft) (emitter : Address) (timestamp version : Nat) : Envelope where
  topic := d.topic
  emitter := .address emitter
  actor := d.actorDatum
  data := d.data.map Value.toDatum
  metadata := d.metadata.toEntries
  timestamp
  version

/-- Both stamps are checked, as the fields of an envelope are. -/
def stamps (timestamp : Datum) (version : Int) : Checked (Nat × Nat) :=
  Checked.both Prod.mk
    ((Document.natural 0 timestamp).under (.name Envelope.timestampField))
    ((Document.natural 1 (.number version)).under (.name Envelope.versionField))

end Draft

namespace Build

/-- Stamps a draft. The clock is read only when no timestamp is given. -/
def stamp (d : Draft) (timestamp : Datum) : Build Envelope := do
  let emitter ← admitted (Admission.address (← identity))
  let time ← match timestamp with
    | .null => now
    | t => pure t
  match Draft.stamps time (← version) with
  | .ok (t, v) => return d.stamped emitter t v
  | .error faults => throw (.encoding (.envelope d.topic faults))

def actor : Datum → Build (Option Address)
  | .null => pure none
  | d => do return some (← admitted (Admission.address d))

/-- The values of an event, from anything that yields its elements one by one. -/
def data (d : Datum) : Build (List Value) := do
  let some xs := d.elements? | throw (.misuse .notIterable)
  values xs

def draft (topic : Topic) (actor data metadata : Datum) : Build Draft := do
  let a ← Build.actor actor
  let vs ← Build.data data
  let m ← Build.metadata metadata
  return ⟨topic, a, vs, m⟩

def envelope (topic actor data metadata timestamp : Datum) : Build Envelope := do
  let t ← Build.topic topic
  let d ← Build.draft t actor data metadata
  stamp d timestamp

end Build

end EventEnvelope
