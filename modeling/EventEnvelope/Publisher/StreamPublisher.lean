import EventEnvelope.Codec.Record
import EventEnvelope.Settings
import EventEnvelope.Transport

/-!
A publisher that hands every record to one stream of a remote server. It only delivers: a refused
record is not tried again, and the id of the latest accepted one is kept.
-/

namespace EventEnvelope

inductive ClientAnswer
  | id (d : Datum)
  | raised (e : ClientError)

inductive RecordKind
  | standard | legacy
deriving DecidableEq, Repr

def RecordKind.name : RecordKind → String
  | standard => "standard"
  | legacy => "legacy"

/-- One append as the client is asked for it. The cap on the stream's length may be approximate. -/
structure StreamEntry where
  stream : String
  maxlen : Int
  approximate : Bool
  record : Bytes
  topic : CodeText
  kind : RecordKind
  instanceId : String
deriving DecidableEq

structure StreamPublisher where
  stream : String
  maxlen : Int
  instanceId : String
  answers : Nat → ClientAnswer
  entries : List StreamEntry
  lastMessageId : Datum

namespace StreamPublisher

def defaultStream : String := "stellara:events"

def defaultMaxlen : Int := 100000

def defaultInstance : String := "stellara-1"

def start (stream : String) (maxlen : Int) (instanceId : String) (answers : Nat → ClientAnswer) :
    StreamPublisher :=
  ⟨stream, maxlen, instanceId, answers, [], .null⟩

def ofSettings (s : Settings) (answers : Nat → ClientAnswer) : StreamPublisher :=
  start s.redisStream s.redisStreamMaxlen s.instanceId answers

/-- The first element of a channel as text; one that holds too long a number has none. -/
def topicText : List Datum → Except Failure CodeText
  | [] => .ok ""
  | .text t :: _ => .ok t.carried
  | d :: _ => if d.isWritable then .ok d.display else .error .badValue

/-- A channel that starts with a topic belongs to the older format. -/
def kindOf : List Datum → RecordKind
  | .text (.topic _) :: _ => .legacy
  | _ => .standard

def entry (p : StreamPublisher) (channel : List Datum) (topic : CodeText) (record : Bytes) :
    StreamEntry where
  stream := p.stream
  maxlen := p.maxlen
  approximate := true
  record
  topic
  kind := kindOf channel
  instanceId := p.instanceId

/-- Ids that come as bytes have to be ASCII. -/
def idText : Datum → Except Failure Datum
  | .bytes bs =>
    if bs.all (· < 0x80) then .ok (.plain (String.ofList (bs.map fun b => Char.ofNat b.toNat)))
    else .error (.undecodable .invalidText)
  | d => .ok d

def errorNote (text : String) : LogRecord := ⟨.error, .stream, text⟩

/-- How a client's error is passed on, and what is reported about it. -/
def refusal (p : StreamPublisher) (e : ClientError) : Failure × Log :=
  match e.kind with
  | .connection | .timeout =>
    (.publish (.unavailable e.text),
      [errorNote ("Publish to " ++ p.stream ++ " failed: " ++ e.text)])
  | .response =>
    (.publish (.rejected e.text),
      [errorNote ("Redis protocol error publishing to " ++ p.stream ++ ": " ++ e.text)])
  | .system | .other => (.client e, [])

def note (p : StreamPublisher) (id : Datum) (topic : CodeText) : LogRecord where
  level := .debug
  source := .stream
  text := "Published to " ++ p.stream ++ ": msg_id=" ++ id.display ++ " topic=" ++ topic

/-- The state once an entry was handed to the client and answered. -/
def answered (p : StreamPublisher) (e : StreamEntry) : Delivery StreamPublisher :=
  let after := { p with entries := p.entries ++ [e] }
  match p.answers p.entries.length with
  | .raised err =>
    let (failure, log) := p.refusal err
    ⟨.error failure, after, log⟩
  | .id d =>
    match idText d with
    | .error failure => ⟨.error failure, after, []⟩
    | .ok id => ⟨.ok (), { after with lastMessageId := id }, [p.note id e.topic]⟩

def publish : Transport StreamPublisher := fun p r =>
  match topicText r.channel with
  | .error e => ⟨.error e, p, []⟩
  | .ok topic =>
    match r.encode with
    | .error e => ⟨.error e, p, []⟩
    | .ok record => p.answered (p.entry r.channel topic record)

/-- Closing reports connection trouble instead of raising it. -/
def close : Option ClientError → Reported Unit
  | none => pure ()
  | some e =>
    match e.kind with
    | .connection | .system =>
      Reported.report
        ⟨.warning, .stream, "Error during RedisStreamPublisher close: " ++ e.text⟩
    | _ => throw (.client e)

def inspect (p : StreamPublisher) : String :=
  "RedisStreamPublisher(stream=" ++ Quoted.text p.stream ++ ", maxlen=" ++ Datum.numberText p.maxlen
    ++ ", instance=" ++ Quoted.text p.instanceId ++ ")"

end StreamPublisher

structure Connection where
  url : String
  connectTimeout : Binary64
  keepalive : Bool
  healthCheckInterval : Nat
deriving DecidableEq, Repr

namespace Connection

def ofUrl (url : String) : Connection where
  url
  connectTimeout := .ofRatio false 5 1
  keepalive := true
  healthCheckInterval := 30

end Connection

end EventEnvelope
