import EventEnvelope.Failure
import EventEnvelope.LogRecord
import EventEnvelope.Datum.Display

/-!
Log lines: a template with time, level, module and message, and the threshold below which nothing is
written. Texts are substituted as they are.
-/

namespace EventEnvelope

structure CivilDate where
  year : Int
  month : Nat
  day : Nat
deriving DecidableEq, Repr

namespace CivilDate

/-- The date so many days after 1970-01-01. Years are counted from March, in cycles of 400. -/
def ofDays (days : Int) : CivilDate :=
  let shifted := days + 719468
  let era := Int.fdiv shifted 146097
  let dayOfEra := (shifted - era * 146097).toNat
  let yearOfEra := (dayOfEra - dayOfEra / 1460 + dayOfEra / 36524 - dayOfEra / 146096) / 365
  let dayOfYear := dayOfEra - (365 * yearOfEra + yearOfEra / 4 - yearOfEra / 100)
  let monthIndex := (5 * dayOfYear + 2) / 153
  let month := if monthIndex < 10 then monthIndex + 3 else monthIndex - 9
  { year := era * 400 + yearOfEra + (if month ≤ 2 then 1 else 0)
    month
    day := dayOfYear - (153 * monthIndex + 2) / 5 + 1 }

end CivilDate

inductive LogFormat
  | json | text
deriving DecidableEq, Repr

namespace LogLine

def padded (width : Nat) (n : Nat) : String :=
  let ds := Nat.toDigits 10 n
  String.ofList (List.replicate (width - ds.length) '0' ++ ds)

/-- Date and time of a second since 1970, in universal time, with milliseconds. -/
def timeText (seconds : Int) : String :=
  let days := Int.fdiv seconds 86400
  let rest := (seconds - days * 86400).toNat
  let d := CivilDate.ofDays days
  padded 4 d.year.toNat ++ "-" ++ padded 2 d.month ++ "-" ++ padded 2 d.day ++ " "
    ++ padded 2 (rest / 3600) ++ ":" ++ padded 2 (rest / 60 % 60) ++ ":" ++ padded 2 (rest % 60)
    ++ ",000"

def render (format : LogFormat) (time level module message : String) : String :=
  match format with
  | .json =>
    "\x7b\"time\": \"" ++ time ++ "\", \"level\": \"" ++ level ++ "\", \"module\": \"" ++ module
      ++ "\", \"message\": \"" ++ message ++ "\"\x7d"
  | .text => time ++ " [" ++ level ++ "] " ++ module ++ ": " ++ message

end LogLine

/-- How lines are written, and from which level on. -/
structure LogSetup where
  threshold : Int
  format : LogFormat
deriving DecidableEq, Repr

namespace LogSetup

/-- The names of thresholds; two levels have a second name, and nothing is below the last one. -/
def thresholds : List (String × Nat) :=
  [("CRITICAL", 50), ("FATAL", 50), ("ERROR", 40), ("WARNING", 30), ("WARN", 30), ("INFO", 20),
    ("DEBUG", 10), ("NOTSET", 0)]

def thresholdNames : List (Int × String) :=
  [(50, "CRITICAL"), (40, "ERROR"), (30, "WARNING"), (20, "INFO"), (10, "DEBUG"), (0, "NOTSET")]

def threshold? : Datum → Option Int
  | .number n => some n
  | .text t => (thresholds.find? fun e => .proper e.1 == t.content).map fun e => (e.2 : Int)
  | _ => none

def thresholdText (n : Int) : String :=
  match thresholdNames.find? fun e => e.1 = n with
  | some e => e.2
  | none => "Level " ++ Datum.numberText n

def formatOf (d : Datum) : LogFormat := if d.content? = some (.proper "json") then .json else .text

def ofNames (level format : Datum) : Except Failure LogSetup :=
  match threshold? level with
  | some n => .ok ⟨n, formatOf format⟩
  | none => .error .badValue

def defaultLevel : Datum := .plain "INFO"

def defaultFormat : Datum := .plain "json"

end LogSetup

end EventEnvelope
