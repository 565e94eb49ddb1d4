import EventEnvelope.Failure
import EventEnvelope.LogRecord
import EventEnvelope.Settings

/-!
What the host provides to a unit of work: its identity, a clock, configuration and the schema
version in force. Building a record may read all of them, and what it reports and how often it
reads the clock stays known even when it fails.
-/

namespace EventEnvelope

inductive Reading
  | value (d : Datum)
  | raised (text : String)

structure Surroundings where
  config : Config
  identity : Datum
  clock : Nat → Reading
  ticks : Nat
  version : Int
  log : Log

abbrev Build (α : Type) := ExceptT Failure (StateM Surroundings) α

namespace Build

def settings : Build Settings := fun s =>
  match s.config.settings with
  | (.ok r, c) => (.ok r, { s with config := c })
  | (.error faults, c) => (.error (.invalid faults), { s with config := c })

def now : Build Datum := fun s =>
  match s.clock s.ticks with
  | .value d => (.ok d, { s with ticks := s.ticks + 1 })
  | .raised text => (.error (.clock text), { s with ticks := s.ticks + 1 })

def identity : Build Datum := fun s => (.ok s.identity, s)

def version : Build Int := fun s => (.ok s.version, s)

def report (level : Level) (source : LogSource) (text : CodeText) : Build Unit := fun s =>
  (.ok (), { s with log := s.log ++ [⟨level, source, text⟩] })

/-- The value, unless it was refused. -/
def admitted {α : Type} : Except EncodingFault α → Build α
  | .ok a => pure a
  | .error fault => throw (.encoding fault)

end Build

namespace Surroundings

/-- A clock that answers from a list and keeps repeating the last entry. -/
def scripted (readings : List Reading) (n : Nat) : Reading :=
  match readings[n]? with
  | some r => r
  | none => readings.getLastD (.value .null)

end Surroundings

end EventEnvelope
