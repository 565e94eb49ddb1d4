import EventEnvelope.Document.Fields

/-!
The two records that describe a business occurrence: the standardized envelope and the older
positional record. Either may be read from a foreign document, so identities and values are data of
any kind; the builder in `Draft` only produces typed ones.
-/

namespace EventEnvelope

structure Envelope where
  topic : Topic
  emitter : Datum
  actor : Datum
  data : List Datum
  metadata : MetadataEntries
  timestamp : Nat
  version : Nat

namespace Envelope

def metadataMap (m : MetadataEntries) : Datum :=
  .map (m.map fun e => (.text (.key e.1), .tuple e.2))

/-- The published payload, in wire order. The topic travels in the channel. -/
def payload (e : Envelope) : Datum :=
  .tuple [e.emitter, e.actor, .tuple e.data, metadataMap e.metadata, .number e.timestamp,
    .number e.version]

def topicField : String := "event_type"

def emitterField : String := "emitter_identity"

def actorField : String := "actor_identity"

def dataField : String := "data"

def metadataField : String := "metadata"

def timestampField : String := "timestamp"

def versionField : String := "version"

def fieldNames : List String :=
  [topicField, emitterField, actorField, dataField, metadataField, timestampField, versionField]

def documentOf (topic emitter actor data metadata timestamp version : Datum) : Document :=
  [(.plain topicField, topic), (.plain emitterField, emitter), (.plain actorField, actor),
    (.plain dataField, data), (.plain metadataField, metadata),
    (.plain timestampField, timestamp), (.plain versionField, version)]

def toDocument (e : Envelope) : Document :=
  documentOf (.topic e.topic) e.emitter e.actor (.tuple e.data) (metadataMap e.metadata)
    (.number e.timestamp) (.number e.version)

/-- Timestamps start at zero and versions at one; actor, data and metadata may be left out. -/
def ofDocument (doc : Document) : Checked Envelope :=
  doc.closed fieldNames (Checked.value Envelope.mk
    |>.apply (doc.required topicField Document.topic)
    |>.apply (doc.required emitterField Document.anything)
    |>.apply (doc.optional actorField .null Document.anything)
    |>.apply (doc.optional dataField [] Document.sequence)
    |>.apply (doc.optional metadataField [] MetadataEntries.read)
    |>.apply (doc.required timestampField (Document.natural 0))
    |>.apply (doc.required versionField (Document.natural 1)))

end Envelope

/-- What a transport is asked to carry. -/
structure Publication where
  channel : List Datum
  payload : Datum

namespace Publication

def channel? (d : Datum) : Checked (List Datum) :=
  match Coerce.sequence d with
  | .error kind => Checked.fail kind
  | .ok [] => Checked.fail .tooShort
  | .ok (x :: xs) => .ok (x :: xs)

def ofDocument (doc : Document) : Checked Publication :=
  doc.closed ["channel", "payload"] (Checked.value Publication.mk
    |>.apply (doc.required "channel" channel?)
    |>.apply (doc.required "payload" Document.anything))

end Publication

end EventEnvelope
