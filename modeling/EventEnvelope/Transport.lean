import EventEnvelope.Envelope
import EventEnvelope.Failure
import EventEnvelope.LogRecord

/-!
The publish primitive. A transport is any state machine that accepts or refuses each record,
depending on its whole history; there is no partial delivery.
-/

namespace EventEnvelope

structure Delivery (σ : Type) where
  outcome : Except Failure Unit
  state : σ
  log : Log

abbrev Transport (σ : Type) := σ → Publication → Delivery σ

end EventEnvelope
