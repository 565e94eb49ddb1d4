import EventEnvelope.Text.CodeText

/-!
Records of what the library reports while it works, and the levels that select among them.
-/

namespace EventEnvelope

inductive Level
  | debug | info | warning | error | critical
deriving DecidableEq, Repr

namespace Level

def all : List Level := [debug, info, warning, error, critical]

def name : Level → String
  | debug => "DEBUG"
  | info => "INFO"
  | warning => "WARNING"
  | error => "ERROR"
  | critical => "CRITICAL"

def rank : Level → Nat
  | debug => 10
  | info => 20
  | warning => 30
  | error => 40
  | critical => 50

def ofName? (s : String) : Option Level := all.find? fun l => l.name == s

end Level

inductive LogSource
  | version | codec | envelope | emitter | eventLog | stream | exporter
deriving DecidableEq, Repr

namespace LogSource

def name : LogSource → String
  | version => "events.schema"
  | codec => "events.serialization"
  | envelope => "events.envelope"
  | emitter => "events.emitter"
  | eventLog => "bus.memory"
  | stream => "bus.redis_streams"
  | exporter => "observability.metrics"

end LogSource

structure LogRecord where
  level : Level
  source : LogSource
  text : CodeText
deriving DecidableEq, Repr

abbrev Log := List LogRecord

namespace Log

/-- The records that matter at least as much as the threshold. -/
def atLeast (threshold : Level) (log : Log) : Log :=
  log.filter fun r => threshold.rank ≤ r.level.rank

end Log

end EventEnvelope
