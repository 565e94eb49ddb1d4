import EventEnvelope.Failure
import EventEnvelope.LogRecord

/-!
Computations that may fail and that report on the way. What was reported before a failure stays
reported.
-/

namespace EventEnvelope

abbrev Reported (α : Type) := ExceptT Failure (StateM Log) α

namespace Reported

variable {α : Type}

def report (r : LogRecord) : Reported Unit := fun log => (.ok (), log ++ [r])

def of : Except Failure α → Reported α
  | .ok a => pure a
  | .error e => throw e

def outcome (x : Reported α) : Except Failure α × Log := x []

end Reported

end EventEnvelope
