import EventEnvelope.Document.Fields

/-!
Configuration from environment variables. Each setting has a default; a variable is matched without
regard to letter case, and the last of several spellings counts.
-/

namespace EventEnvelope

/-- Environment variables, name and text, in the order in which they were set. -/
abbrev Environment := List (String × String)

structure Settings where
  instanceId : String
  deployment : String
  rootTopic : String
  symbolMaxLength : Nat
  redisUrl : String
  redisStream : String
  redisStreamMaxlen : Int
  metricsEnabled : Bool
  exporterEndpoint : Int
  logLevel : String
  logFormat : String
deriving DecidableEq, Repr

namespace Settings

/-- What stands before the name of a setting in the name of its variable. -/
def variablePrefix : String := "stellara_"

def lower (s : String) : String := String.ofList (s.toList.map Char.toLower)

def textFor? (env : Environment) (name : String) : Option String :=
  (env.reverse.find? fun v => lower v.1 == variablePrefix ++ name).map Prod.snd

variable {α : Type}

def read (env : Environment) (name : String) (absent : α) (value : String → Checked α) :
    Checked α :=
  match textFor? env name with
  | some s => (value s).under (.name name)
  | none => .ok absent

def anyText (s : String) : Checked String := .ok s

def symbolText (s : String) : Checked String :=
  if Text.isSymbolText s then .ok s else Checked.fail .patternMismatch

def integer (s : String) : Checked Int := .ofKind (Coerce.integerOfText s)

def positive (s : String) : Checked Nat := Document.natural 1 (.plain s)

def flag (s : String) : Checked Bool := .ofKind (Coerce.flagOfText s)

def ofEnvironment (env : Environment) : Checked Settings :=
  Checked.value Settings.mk
    |>.apply (read env "instance_id" "stellara-node-1" anyText)
    |>.apply (read env "environment" "production" anyText)
    |>.apply (read env "root_topic" "stellara_event" symbolText)
    |>.apply (read env "symbol_max_length" 32 positive)
    |>.apply (read env "redis_url" "redis://localhost:6379" anyText)
    |>.apply (read env "redis_stream" "stellara:events" anyText)
    |>.apply (read env "redis_stream_maxlen" 100000 integer)
    |>.apply (read env "metrics_enabled" true flag)
    |>.apply (read env "prometheus_port" 8000 integer)
    |>.apply (read env "log_level" "INFO" anyText)
    |>.apply (read env "log_format" "json" anyText)

end Settings

/-- The environment together with the settings read from it before. Settings are read when first
needed and then stay in force; a reading that failed is tried again. -/
structure Config where
  environment : Environment
  cached : Option Settings

namespace Config

def ofEnvironment (env : Environment) : Config := ⟨env, none⟩

def settings (c : Config) : Checked Settings × Config :=
  match c.cached with
  | some s => (.ok s, c)
  | none =>
    match Settings.ofEnvironment c.environment with
    | .ok s => (.ok s, { c with cached := some s })
    | .error faults => (.error faults, c)

/-- A changed environment takes effect at once only if the cached settings are dropped. -/
def setEnvironment (c : Config) (env : Environment) (dropCached : Bool) : Config :=
  { environment := env, cached := if dropCached then none else c.cached }

end Config

end EventEnvelope
