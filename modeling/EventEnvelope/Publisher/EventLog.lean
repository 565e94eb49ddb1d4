import EventEnvelope.Datum.Display
import EventEnvelope.Datum.Order
import EventEnvelope.Transport

/-!
An append-only log in memory. It can be told to refuse channels by their first element, which is
compared as keys are.
-/

namespace EventEnvelope

structure PublishedRecord where
  sequence : Nat
  channel : List Datum
  payload : Datum

structure EventLog where
  failOn : List Datum
  records : List PublishedRecord

namespace EventLog

/-- An empty log that refuses the given first elements, all of which have to be fit for keys. -/
def start (failOn : List Datum) : Except Failure EventLog :=
  if failOn.all Datum.isHashable then .ok ⟨failOn, []⟩ else .error (.misuse .notHashable)

/-- Whether a channel that starts with this element is refused. A set is compared as it is; every
other value has to be fit for a key. -/
def refuses (l : EventLog) (first : Datum) : Except Failure Bool :=
  match first with
  | .set _ => .ok false
  | d => if d.isHashable then .ok (l.failOn.any fun f => Datum.same f d)
    else .error (.misuse .notHashable)

def append (l : EventLog) (p : Publication) : EventLog :=
  { l with records := l.records ++ [⟨l.records.length, p.channel, p.payload⟩] }

def note (sequence : Nat) (channel : List Datum) : LogRecord where
  level := .debug
  source := .eventLog
  text := "InMemoryEventLog seq=" ++ Datum.numberText sequence ++ " channel="
    ++ (Datum.tuple channel).inspect

def accept (l : EventLog) (p : Publication) : Delivery EventLog :=
  ⟨.ok (), l.append p, [note l.records.length p.channel]⟩

def publish : Transport EventLog := fun l p =>
  match p.channel with
  | [] => l.accept p
  | first :: _ =>
    match l.refuses first with
    | .error e => ⟨.error e, l, []⟩
    | .ok true => ⟨.error (.transport first), l, []⟩
    | .ok false => l.accept p

def channels (l : EventLog) : List (List Datum) := l.records.map PublishedRecord.channel

def clear (l : EventLog) : EventLog := { l with records := [] }

def size (l : EventLog) : Nat := l.records.length

/-- What a walk over the log yields. -/
def toList (l : EventLog) : List PublishedRecord := l.records

end EventLog

end EventEnvelope
