import EventEnvelope.Document.Numeral
import EventEnvelope.Surroundings

/-!
A clock that never goes back: each reading is cut to a whole number and raised to the latest one.
Readings that are no numbers are refused and leave the clock as it was.
-/

namespace EventEnvelope

namespace Reading

/-- The whole number of a raw reading; fractions are dropped. -/
def seconds : Datum → Except Failure Int
  | .flag b => .ok (if b then 1 else 0)
  | .number n => .ok n
  | .real x =>
    if x.isNan then .error .badValue
    else if x.isFinite then .ok x.truncate
    else .error .infiniteValue
  | .text t =>
    match t.content.proper?.bind Numeral.ofClockText? with
    | some n => .ok n
    | none => .error .badValue
  | .bytes bs =>
    match Numeral.ofClockBytes? bs with
    | some n => .ok n
    | none => .error .badValue
  | _ => .error (.misuse .notNumeric)

end Reading

structure SteadyClock where
  identity : Address
  last : Int
deriving DecidableEq, Repr

namespace SteadyClock

def start (identity : Address) : SteadyClock := ⟨identity, 0⟩

def read (c : SteadyClock) (raw : Datum) : Except Failure Int × SteadyClock :=
  match Reading.seconds raw with
  | .error e => (.error e, c)
  | .ok n =>
    let t := if n < c.last then c.last else n
    (.ok t, { c with last := t })

def readAll (c : SteadyClock) : List Datum → List (Except Failure Int) × SteadyClock
  | [] => ([], c)
  | raw :: r =>
    let (t, c') := c.read raw
    let (ts, c'') := readAll c' r
    (t :: ts, c'')

def inspect (c : SteadyClock) : String :=
  "SystemContext(identity=" ++ (Text.address c.identity).inspect ++ ", last="
    ++ Datum.numberText c.last ++ ")"

end SteadyClock

end EventEnvelope
