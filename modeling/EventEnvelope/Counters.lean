import EventEnvelope.Datum.Order
import EventEnvelope.Datum.Display

/-!
Counters of emissions, by outcome and label values. A series that was never touched counts zero.
-/

namespace EventEnvelope

inductive CounterFamily
  | published | encodingErrors | publishFailures
deriving DecidableEq, Repr

namespace CounterFamily

def all : List CounterFamily := [published, encodingErrors, publishFailures]

def sampleName : CounterFamily → String
  | published => "stellara_events_published_total"
  | encodingErrors => "stellara_encoding_errors_total"
  | publishFailures => "stellara_publish_failures_total"

def labelNames : CounterFamily → List String
  | published => ["channel", "event_type"]
  | encodingErrors | publishFailures => ["event_type"]

end CounterFamily

/-- One counter: a family and the text of each of its labels. -/
structure Series where
  family : CounterFamily
  labels : List CodeText
deriving DecidableEq, Repr

namespace Series

def standardPublished (topic : CodeText) : Series := ⟨.published, ["standard", topic]⟩

def legacyPublished (topic : CodeText) : Series := ⟨.published, ["legacy", topic]⟩

def encodingError (topic : CodeText) : Series := ⟨.encodingErrors, [topic]⟩

def publishFailure (topic : CodeText) : Series := ⟨.publishFailures, [topic]⟩

def labelMap (s : Series) : Datum :=
  .map ((s.family.labelNames.zip s.labels).map fun l => (.plain l.1, .plain l.2))

end Series

/-- How often each series was counted, in the order of first use. -/
abbrev Counters := List (Series × Nat)

namespace Counters

def count (c : Counters) (s : Series) : Nat :=
  match c.find? fun e => e.1 = s with
  | some e => e.2
  | none => 0

def bump (c : Counters) (s : Series) : Counters :=
  if c.any fun e => e.1 = s then c.map fun e => if e.1 = s then (e.1, e.2 + 1) else e
  else c ++ [(s, 1)]

/-- The count of the series with this sample name and exactly these labels. -/
def sample (c : Counters) (name : String) (labels : Datum) : Nat :=
  match c.find? fun e => e.1.family.sampleName == name && Datum.same e.1.labelMap labels with
  | some e => e.2
  | none => 0

end Counters

end EventEnvelope
