import EventEnvelope.Arguments
import EventEnvelope.Operation

/-!
Building both records of an operation from one set of checked arguments and one clock reading.
Nothing is published here, so a record that cannot be built leaves no trace on the transport.
-/

namespace EventEnvelope

/-- The two records that describe one business occurrence. -/
structure Emission where
  standard : Envelope
  legacy : Publication

abbrev CallerArguments := Field → Datum

abbrev Assignment := Field → Option Value

namespace Assignment

def empty : Assignment := fun _ => none

def set (a : Assignment) (f : Field) (v : Value) : Assignment :=
  fun g => if g = f then some v else a g

def address? (a : Assignment) (f : Field) : Option Address :=
  match a f with
  | some (.address x) => some x
  | _ => none

end Assignment

namespace Build

def typed (f : Field) (d : Datum) : Build Value :=
  match f.role with
  | .identity => do return .address (← admitted (Admission.address d))
  | .number => do return .number (← admitted (Admission.integer d))
  | .flag => do return .flag (← admitted (Admission.flag d))
  | .text => do return .symbol (← symbol d)

end Build

namespace Layout

def isAbsent (l : Layout) (args : CallerArguments) (f : Field) : Bool :=
  l.optional.contains f && (match args f with | .null => true | _ => false)

/-- Checks arguments one after another; the first refusal is the one reported. -/
def check (l : Layout) (args : CallerArguments) : List Field → Assignment → Build Assignment
  | [], a => pure a
  | f :: fs, a => do
    if l.isAbsent args f then check l args fs a
    else
      let v ← Build.typed f (args f)
      check l args fs (a.set f v)

/-- The value that stands for a late parameter left out. -/
def placeholder : Value := .number 0

def settle (l : Layout) (name : String) (args : CallerArguments) :
    List Field → Assignment → Build Assignment
  | [], a => pure a
  | f :: fs, a => do
    if l.isAbsent args f then
      Build.report .debug .emitter
        (name ++ " without " ++ f.name ++ "; using placeholder " ++ placeholder.inspect)
      settle l name args fs (a.set f placeholder)
    else
      let v ← Build.typed f (args f)
      settle l name args fs (a.set f v)

def sourceValue (a : Assignment) : Source → Except EncodingFault (Option Value)
  | .field f => .ok (a f)
  | .total f g =>
    match a f, a g with
    | some (.number m), some (.number n) =>
      (Admission.integer (.number (m + n))).map fun total => some (.number total)
    | _, _ => .ok none

/-- One value under each key; a field that was left out has no key. -/
def metadataOf (a : Assignment) : List (MetadataKey × Source) → Except EncodingFault Metadata
  | [] => .ok []
  | (k, source) :: r =>
    match sourceValue a source with
    | .error fault => .error fault
    | .ok none => metadataOf a r
    | .ok (some v) => (metadataOf a r).map ((k, [v]) :: ·)

/-- A value in a row of the older format, where a title stays plain text. -/
def rowValue (a : Assignment) (f : Field) : Option Datum :=
  match f, a f with
  | .title, some (.symbol s) => some (.plain s.text)
  | _, v => v.map Value.toDatum

/-- The named values from which a struct is filled. -/
def structFields (a : Assignment) (now : Datum) (kind : LegacyKind) : Document :=
  kind.fields.filterMap fun f =>
    if f = .timestamp then some (.plain f.name, now)
    else (a f).map fun v => (.plain f.name, v.toDatum)

def legacyPayload (a : Assignment) (now : Datum) : LegacyPayload → Checked Datum
  | .single f => .ok (((a f).map Value.toDatum).getD .null)
  | .row fs => .ok (.tuple (fs.filterMap (rowValue a) ++ [now]))
  | .struct kind => (kind.read (structFields a now kind)).map .struct

def legacyChannel (l : Layout) (a : Assignment) : List Datum :=
  .topic l.legacyTopic :: l.legacyKeys.filterMap fun f => (a f).map Value.toDatum

end Layout

namespace Operation

def draft (op : Operation) (a : Assignment) (metadata : Metadata) : Draft where
  topic := op.layout.topic
  actor := a.address? op.layout.actor
  data := op.layout.data.filterMap a
  metadata := metadata

def build (op : Operation) (args : CallerArguments) : Build Emission := do
  let l := op.layout
  let a ← l.check args l.checks .empty
  let now ← Build.now
  let a ← l.settle op.name args l.late a
  let metadata ← Build.admitted (Layout.metadataOf a l.metadata)
  let standard ← Build.stamp (op.draft a metadata) now
  match Layout.legacyPayload a now l.legacy with
  | .ok payload => return ⟨standard, ⟨l.legacyChannel a, payload⟩⟩
  | .error faults => throw (.invalid faults)

def parameters (op : Operation) : List Parameter :=
  op.layout.params.map fun f => ⟨f.name, !op.layout.optional.contains f⟩

def bind (op : Operation) (positional : List Datum) (named : List (String × Datum)) :
    Except Failure CallerArguments :=
  (Arguments.bind op.parameters positional named).map fun bound f => Arguments.get bound f.name

end Operation

end EventEnvelope
