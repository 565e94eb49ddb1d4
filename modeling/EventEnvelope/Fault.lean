/-!
Faults of a document's fields, and checks that gather every fault instead of stopping at the first.
-/

namespace EventEnvelope

inductive FaultKind
  | missing | unknownField | invalidKey
  | notInteger | unreadableInteger | integerTooLarge | fractional | notFinite | tooSmall
  | notFlag | unreadableFlag | brokenText
  | notMember | notSequence | tooShort | notMap | wrongInstance | patternMismatch
deriving DecidableEq, Repr

namespace FaultKind

def code : FaultKind → String
  | missing => "missing"
  | unknownField => "extra_forbidden"
  | invalidKey => "invalid_key"
  | notInteger => "int_type"
  | unreadableInteger => "int_parsing"
  | integerTooLarge => "int_parsing_size"
  | fractional => "int_from_float"
  | notFinite => "finite_number"
  | tooSmall => "greater_than_equal"
  | notFlag => "bool_type"
  | unreadableFlag => "bool_parsing"
  | brokenText => "string_unicode"
  | notMember => "enum"
  | notSequence => "tuple_type"
  | tooShort => "too_short"
  | notMap => "dict_type"
  | wrongInstance => "is_instance_of"
  | patternMismatch => "string_pattern_mismatch"

end FaultKind

inductive PathStep
  | name (s : String)
  | index (n : Int)
deriving DecidableEq, Repr

structure Fault where
  path : List PathStep
  kind : FaultKind
deriving DecidableEq, Repr

namespace Fault

def under (step : PathStep) (f : Fault) : Fault := { f with path := step :: f.path }

/-- How a message refers to a list of faults. -/
def notice : String := "<ValidationError>"

end Fault

/-- Either a value or every fault found, in the order of the checks. -/
abbrev Checked (α : Type) := Except (List Fault) α

namespace Checked

def value {α : Type} (a : α) : Checked α := .ok a

def fail {α : Type} (kind : FaultKind) : Checked α := .error [⟨[], kind⟩]

def under {α : Type} (step : PathStep) (c : Checked α) : Checked α :=
  c.mapError (List.map (Fault.under step))

def ofKind {α : Type} : Except FaultKind α → Checked α
  | .ok a => .ok a
  | .error kind => fail kind

/-- Both checks run; the faults of the first come first. -/
def both {α β γ : Type} (f : α → β → γ) (ca : Checked α) (cb : Checked β) : Checked γ :=
  match ca, cb with
  | .ok a, .ok b => .ok (f a b)
  | .ok _, .error e => .error e
  | .error e, .ok _ => .error e
  | .error e, .error e' => .error (e ++ e')

/-- One more argument for a function under construction. -/
def apply {α β : Type} (cf : Checked (α → β)) (ca : Checked α) : Checked β :=
  both (fun f a => f a) cf ca

/-- The check stands only if there are no further faults. -/
def withFaults {α : Type} (c : Checked α) (faults : List Fault) : Checked α :=
  match c with
  | .ok a => if faults.isEmpty then .ok a else .error faults
  | .error e => .error (e ++ faults)

end Checked

end EventEnvelope
