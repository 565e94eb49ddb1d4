import EventEnvelope.Counters
import EventEnvelope.Report
import EventEnvelope.Settings

/-!
A collector exports counters and build information at an endpoint. The process has at most one
shared collector, made when it is first asked for.
-/

namespace EventEnvelope

def libraryVersion : String := "1.0.0"

structure Collector where
  endpoint : Datum
  started : Bool
  counters : Counters
  info : List (Datum × Datum)

namespace Collector

def defaultEndpoint : Int := 8000

def start (endpoint : Datum) : Collector := ⟨endpoint, false, [], []⟩

/-- Label values count by their text. -/
def recordPublished (c : Collector) (channel topic : Datum) : Collector :=
  { c with counters := c.counters.bump ⟨.published, [channel.display, topic.display]⟩ }

def recordEncodingError (c : Collector) (topic : Datum) : Collector :=
  { c with counters := c.counters.bump (.encodingError topic.display) }

def recordPublishFailure (c : Collector) (topic : Datum) : Collector :=
  { c with counters := c.counters.bump (.publishFailure topic.display) }

def setBuildInfo (c : Collector) (version instanceId deployment : Datum) : Collector :=
  { c with info := [(.plain "version", version), (.plain "instance_id", instanceId),
      (.plain "environment", deployment)] }

def infoName : String := "stellara_events_build_info"

/-- A current sample: the information series counts one under exactly its own labels. -/
def sample (c : Collector) (name : String) (labels : Datum) : Nat :=
  if name == infoName then (if Datum.same (.map c.info) labels then 1 else 0)
  else c.counters.sample name labels

/-- Opens the endpoint, unless it is open already. The reason of a refusal is reported. -/
def startServer (c : Collector) (refusal : Option String) : Collector × Log :=
  if c.started then (c, [])
  else match refusal with
    | none =>
      ({ c with started := true },
        [⟨.info, .exporter, "Prometheus metrics server started on port " ++ c.endpoint.display⟩])
    | some text => (c, [⟨.error, .exporter, "Failed to start metrics server: " ++ text⟩])

/-- The shared collector, or a new one at the given or else the configured endpoint. -/
def obtain (shared : Option Collector) (endpoint : Datum) (config : Config) :
    Checked Collector × Config :=
  match shared, endpoint with
  | some c, _ => (.ok c, config)
  | none, .null =>
    match config.settings with
    | (.ok s, config) => (.ok (start (.number s.exporterEndpoint)), config)
    | (.error faults, config) => (.error faults, config)
  | none, e => (.ok (start e), config)

/-- The shared collector with its endpoint open and its build information set. -/
def launch (shared : Option Collector) (s : Settings) (refusal : Option String) :
    Collector × Log :=
  let c := shared.getD (start (.number s.exporterEndpoint))
  let (c, log) := c.startServer refusal
  (c.setBuildInfo (.plain libraryVersion) (.plain s.instanceId) (.plain s.deployment), log)

/-- Starts the shared collector, if the settings want one. -/
def startFromSettings (shared : Option Collector) (s : Settings) (refusal : Option String) :
    Option Collector × Log :=
  if s.metricsEnabled then
    let (c, log) := launch shared s refusal
    (some c, log)
  else (none, [⟨.info, .exporter, "Prometheus metrics disabled by configuration"⟩])

end Collector

end EventEnvelope
