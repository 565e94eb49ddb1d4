import EventEnvelope.Proofs.Effects

/-! Sessions: calls one after another on emitters that share a transport. Between two calls the host
may change everything about the surroundings. A transport can be observed, so that every attempt to
publish stays on record together with its outcome; observing changes nothing else. -/

namespace EventEnvelope

variable {σ τ α β : Type}

/-- The records of one request. Only an operation has an older one. -/
structure Records where
  standard : Envelope
  legacy : Option Publication

def Records.ofEmission (e : Emission) : Records := ⟨e.standard, some e.legacy⟩

def Records.ofEnvelope (e : Envelope) : Records := ⟨e, none⟩

/-- The records as they are published below a root topic, in their order. -/
def Records.publications (r : Records) (root : Symbol) : List Publication :=
  r.standard.publication root :: r.legacy.toList

/-- A standardized record by itself: its topic is settled before anything else. -/
def Build.standard (topic actor data metadata : Datum) : Build Envelope := do
  let found ← Build.topic topic
  Build.envelope (.topic found) actor data metadata .null

inductive Request
  | operation (op : Operation) (positional : List Datum) (named : List (String × Datum))
  | standard (positional : List Datum) (named : List (String × Datum))

namespace Request

/-- Building alone: what a request comes to before anything is published. -/
def build : Request → Build Records
  | operation op positional named => do
    let args ← Build.of (op.bind positional named)
    let e ← op.build args
    return .ofEmission e
  | standard positional named => do
    let bound ← Build.of (Arguments.bind Emitter.standardParameters positional named)
    let e ← Build.standard (Arguments.get bound "event_type")
      (Arguments.get bound "actor_identity") (Arguments.get bound "data")
      (Arguments.get bound "metadata")
    return .ofEnvelope e

/-- The whole request: building, then publishing. -/
def perform (em : Emitter) (t : Transport σ) : Request → Emit σ Records
  | operation op positional named => do
    let args ← Emit.build (Build.of (op.bind positional named))
    let e ← em.perform t op args
    return .ofEmission e
  | standard positional named => do
    let bound ← Emit.build (Build.of (Arguments.bind Emitter.standardParameters positional named))
    let e ← em.emitStandard t (Arguments.get bound "event_type")
      (Arguments.get bound "actor_identity") (Arguments.get bound "data")
      (Arguments.get bound "metadata")
    return .ofEnvelope e

/-- How a request came to its records. -/
inductive Builds (s s' : Surroundings) : Request → Records → Prop
  | operation {op : Operation} {positional : List Datum} {named : List (String × Datum)}
      {args : CallerArguments} {e : Emission} (bound : op.bind positional named = .ok args)
      (built : op.build args s = (.ok e, s')) :
      Builds s s' (.operation op positional named) (.ofEmission e)
  | standard {positional : List Datum} {named : List (String × Datum)}
      {topic actor data metadata : Datum} {e : Envelope}
      (built : Build.standard topic actor data metadata s = (.ok e, s')) :
      Builds s s' (.standard positional named) (.ofEnvelope e)

theorem builds_of_build {q : Request} {s s' : Surroundings} {r : Records}
    (h : q.build s = (.ok r, s')) : q.Builds s s' r := by
  cases q with
  | operation op positional named =>
    obtain ⟨args, _, first, rest⟩ := Build.bind_eq_ok h
    obtain ⟨bound, rfl⟩ := Build.of_eq_ok first
    obtain ⟨e, _, built, last⟩ := Build.bind_eq_ok rest
    cases last
    exact .operation bound built
  | standard positional named =>
    obtain ⟨args, _, first, rest⟩ := Build.bind_eq_ok h
    obtain ⟨_, rfl⟩ := Build.of_eq_ok first
    obtain ⟨e, _, built, last⟩ := Build.bind_eq_ok rest
    cases last
    exact .standard built

end Request

/-- One call: the emitter asked, what the host makes of the surroundings for it, and the request. -/
structure Call where
  emitter : Emitter
  host : Surroundings → Surroundings
  request : Request

/-- A call as it went: the world it met and the world it left. -/
structure Turn (σ : Type) where
  call : Call
  before : World σ
  reply : Except Failure Records
  after : World σ

namespace World

def enter (w : World σ) (host : Surroundings → Surroundings) : World σ :=
  { w with surroundings := host w.surroundings }

def mapTransport (f : τ → σ) (w : World τ) : World σ :=
  ⟨w.surroundings, f w.transport, w.counters⟩

end World

namespace Turn

def built (turn : Turn σ) : Except Failure Records :=
  (turn.call.request.build turn.before.surroundings).1

def mapTransport (f : τ → σ) (turn : Turn τ) : Turn σ :=
  ⟨turn.call, turn.before.mapTransport f, turn.reply, turn.after.mapTransport f⟩

end Turn

def Call.turn (c : Call) (t : Transport σ) (w : World σ) : Turn σ :=
  let met := w.enter c.host
  let r := c.request.perform c.emitter t met
  ⟨c, met, r.1, r.2⟩

/-- The turns of a session: each call meets the world that the one before it left. -/
def turns (t : Transport σ) (w : World σ) : List Call → List (Turn σ)
  | [] => []
  | c :: cs => c.turn t w :: turns t (c.turn t w).after cs

/-- The world that a session leaves. -/
def leave (t : Transport σ) (w : World σ) (cs : List Call) : World σ :=
  cs.foldl (fun w c => (c.turn t w).after) w

/-- One attempt to publish, and what came of it. -/
structure Attempt where
  record : Publication
  outcome : Except Failure Unit

namespace Transport

/-- The same transport with every attempt on record. -/
def observed (t : Transport σ) : Transport (σ × List Attempt) := fun s p =>
  let d := t s.1 p
  ⟨d.outcome, (d.state, s.2 ++ [⟨p, d.outcome⟩]), d.log⟩

/-- Records handed over one after another, up to the first that is refused. -/
def handOver (t : Transport σ) (s : σ) : List Publication → Except Failure Unit × σ
  | [] => (.ok (), s)
  | p :: r =>
    match (t s p).outcome with
    | .ok () => handOver t (t s p).state r
    | .error e => (.error e, (t s p).state)

end Transport

namespace World

/-- A world whose transport is observed from here on. -/
def observed (w : World σ) : World (σ × List Attempt) :=
  ⟨w.surroundings, (w.transport, []), w.counters⟩

end World

/-- Every attempt to publish that a session makes, in order. -/
def attempts (t : Transport σ) (w : World σ) (cs : List Call) : List Attempt :=
  (leave t.observed w.observed cs).transport.2

end EventEnvelope
