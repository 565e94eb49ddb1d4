import EventEnvelope.Envelope
import EventEnvelope.Json.Reader
import EventEnvelope.Json.Writer
import EventEnvelope.Version
import EventEnvelope.Wire.Reader
import EventEnvelope.Wire.Writer

/-!
Envelopes as bytes, in binary or JSON form. A reader tells the two apart by the first byte; it
reports a version that is too new and goes on, and refuses a document whose fields are at fault.
-/

namespace EventEnvelope.Envelope

def encode (e : Envelope) : Except Failure Bytes := Wire.encode (.map e.toDocument)

/-- The JSON form, in ASCII. -/
def renderJson (e : Envelope) : Except Failure String :=
  (Json.ofDatum (.map e.toDocument)).map Json.render

def encodeJson (e : Envelope) : Except Failure Bytes := e.renderJson.map Utf8.encode

def absentField : Datum := .plain "?"

def shown (doc : Document) (name : String) : Datum := (Datum.get? doc name).getD absentField

def rejection (doc : Document) : LogRecord where
  level := .error
  source := .codec
  text := "Validation failed for event_type=" ++ (shown doc topicField).display ++ " ts="
    ++ (shown doc timestampField).display ++ ": " ++ Fault.notice

/-- The envelope of a document, for a consumer that knows versions up to the current one. -/
def accept (current : Int) (doc : Document) : Reported Envelope := do
  let _ ← Version.check current ((Datum.get? doc versionField).getD (.number 0))
    (shown doc topicField)
  match ofDocument doc with
  | .ok e => return e
  | .error faults =>
    Reported.report (rejection doc)
    throw (.invalid faults)

def decodeJson (current : Int) (bs : Bytes) : Reported Envelope := do
  let some s := Utf8.decode? bs | throw (.undecodable .invalidText)
  let some j := Json.parse? s | throw (.undecodable .notJson)
  match j.toDatum with
  | .map doc => accept current doc
  | _ => throw .notMap

/-- The first byte of every JSON object, and of no map in binary form. -/
def jsonMark : UInt8 := 0x7b

def decode (current : Int) : Bytes → Reported Envelope
  | [] => throw .emptyData
  | b :: bs =>
    if b = jsonMark then decodeJson current (b :: bs)
    else match Wire.decode (b :: bs) with
      | .error fault => throw (.undecodableEvent fault)
      | .ok (.map doc) => accept current doc
      | .ok d => throw (.notEventMap d)

/-- The envelope behind a published channel and payload: two elements name root and topic, six hold
the stamped fields. -/
def ofPublication (current : Int) (channel : List Datum) (payload : Datum) : Reported Envelope := do
  let some length := payload.length? | throw (.misuse .notMeasurable)
  match channel, payload.elements? with
  | [_, topic], some [emitter, actor, data, metadata, timestamp, version] =>
    accept current (documentOf topic emitter actor data metadata timestamp version)
  | _, _ => throw (.notEnvelope channel.length length)

end EventEnvelope.Envelope
