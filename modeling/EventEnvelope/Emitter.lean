import EventEnvelope.Counters
import EventEnvelope.Emission
import EventEnvelope.Transport

/-!
Emitting: both records of an operation are built completely, then the standardized one is published,
then the older one. The first failure ends the call, and nothing is tried again.
-/

namespace EventEnvelope

structure World (σ : Type) where
  surroundings : Surroundings
  transport : σ
  counters : Counters

/-- A computation over the world that may fail; what it did before stays done. -/
abbrev Emit (σ α : Type) := ExceptT Failure (StateM (World σ)) α

namespace Emit

variable {σ α : Type}

/-- Building leaves transport and counters alone. -/
def build (x : Build α) : Emit σ α := fun w =>
  let (r, s) := x w.surroundings
  (r, { w with surroundings := s })

def reportAll (log : Log) (w : World σ) : World σ :=
  { w with surroundings := { w.surroundings with log := w.surroundings.log ++ log } }

def publish (t : Transport σ) (p : Publication) : Emit σ Unit := fun w =>
  let d := t w.transport p
  (d.outcome, reportAll d.log { w with transport := d.state })

def report (level : Level) (source : LogSource) (text : CodeText) : Emit σ Unit := fun w =>
  (.ok (), reportAll [⟨level, source, text⟩] w)

def count (s : Series) : Emit σ Unit := fun w => (.ok (), { w with counters := w.counters.bump s })

/-- Acts on a failure before it is passed on, and may put another in its place. -/
def onFailure (x : Emit σ α) (act : Failure → Emit σ Failure) : Emit σ α := fun w =>
  match x w with
  | (.ok a, w) => (.ok a, w)
  | (.error e, w) =>
    match act e w with
    | (.ok e, w) => (.error e, w)
    | (.error e, w) => (.error e, w)

end Emit

structure Emitter where
  root : Symbol
  metered : Bool
deriving DecidableEq, Repr

namespace Build

/-- The root topic that a caller names, or the configured one. -/
def root : Datum → Build Symbol
  | .null => do symbol (.plain (← settings).rootTopic)
  | d => symbol d

/-- The channel that a standardized record of this topic is published on. -/
def channelKey (eventType rootTopic : Datum) : Build (List Datum) := do
  return [.symbol (← root rootTopic), eventType]

def emitter (rootTopic : Datum) (metered : Bool) : Build Emitter := do
  return ⟨← root rootTopic, metered⟩

end Build

namespace Envelope

def publication (e : Envelope) (root : Symbol) : Publication :=
  ⟨[.symbol root, .topic e.topic], e.payload⟩

/-- Topic, actor and timestamp as reports name them. -/
def actorText (e : Envelope) : CodeText := e.actor.display

end Envelope

namespace Emitter

variable {σ α : Type}

def inspect (em : Emitter) : String :=
  "EventEmitter(root_topic=" ++ (Text.symbol em.root).inspect ++ ", metrics="
    ++ (if em.metered then "configured" else "NONE") ++ ")"

def count (em : Emitter) (s : Series) : Emit σ Unit :=
  if em.metered then Emit.count s else pure ()

def rejected (em : Emitter) (topic : Topic) (text : String) : Emit σ Unit := do
  Emit.report .warning .emitter ("Rejected " ++ topic.id ++ " event before publish: " ++ text)
  em.count (.encodingError topic.id)

/-- Builds a record; one that cannot be represented is counted and reported as an encoding fault. -/
def encoding (em : Emitter) (topic : Topic) (x : Build α) : Emit σ α :=
  Emit.onFailure (Emit.build x) fun
    | .encoding fault => do
      em.rejected topic fault.message
      return .encoding fault
    | .invalid faults => do
      em.rejected topic Fault.notice
      return .encoding (.record topic faults)
    | e => return e

def publishBoth (em : Emitter) (t : Transport σ) (e : Emission) : Emit σ Unit := do
  Emit.publish t (e.standard.publication em.root)
  Emit.publish t e.legacy

def publishFailed (em : Emitter) (e : Envelope) : Emit σ Unit := do
  Emit.report .error .emitter
    ("Publish failed for " ++ e.topic.id ++ " event (actor=" ++ e.actorText ++ " ts="
      ++ Datum.numberText e.timestamp ++ ")")
  em.count (.publishFailure e.topic.id)

def emitted (em : Emitter) (e : Emission) : Emit σ Unit := do
  Emit.report .debug .emitter
    ("Emitted " ++ e.standard.topic.id ++ " actor=" ++ e.standard.actorText ++ " ts="
      ++ Datum.numberText e.standard.timestamp ++ " v=" ++ Datum.numberText e.standard.version
      ++ " legacy_channel_len=" ++ Datum.numberText e.legacy.channel.length)
  em.count (.standardPublished e.standard.topic.id)
  em.count (.legacyPublished e.standard.topic.id)

/-- Publishes the standardized record, then the older one. -/
def deliver (em : Emitter) (t : Transport σ) (e : Emission) : Emit σ Emission := do
  Emit.onFailure (em.publishBoth t e) fun failure => do
    em.publishFailed e.standard
    return failure
  em.emitted e
  return e

def perform (em : Emitter) (t : Transport σ) (op : Operation) (args : CallerArguments) :
    Emit σ Emission := do
  em.deliver t (← em.encoding op.topic (op.build args))

/-- Emits a standardized record that has no older counterpart. -/
def emitStandard (em : Emitter) (t : Transport σ) (topic actor data metadata : Datum) :
    Emit σ Envelope := do
  let found ← Emit.build (Build.topic topic)
  let e ← em.encoding found (Build.envelope (.topic found) actor data metadata .null)
  Emit.onFailure (Emit.publish t (e.publication em.root)) fun failure => do
    em.count (.publishFailure found.id)
    return failure
  em.count (.standardPublished found.id)
  return e

def standardParameters : List Parameter :=
  [⟨"event_type", true⟩, ⟨"actor_identity", true⟩, ⟨"data", true⟩, ⟨"metadata", true⟩]

end Emitter

/-- Emits a standardized record without an emitter: the root topic is settled once the record is
built, and nothing is counted. -/
def emitOnce {σ : Type} (t : Transport σ) (rootTopic topic actor data metadata : Datum) :
    Emit σ Envelope := do
  let e ← Emit.build (Build.envelope topic actor data metadata .null)
  let root ← Emit.build (Build.root rootTopic)
  Emit.publish t (e.publication root)
  Emit.report .debug .envelope
    ("Published standard event type=" ++ e.topic.id ++ " actor=" ++ e.actorText ++ " ts="
      ++ Datum.numberText e.timestamp ++ " v=" ++ Datum.numberText e.version)
  return e

end EventEnvelope
