import EventEnvelope.Datum.Display
import EventEnvelope.Document.Coerce

/-!
Reading a document field by field. Every field is read whatever became of the others, and a document
with a field that nobody announced is refused.
-/

namespace EventEnvelope

abbrev Document := List (Datum × Datum)

namespace Document

variable {α : Type}

def required (doc : Document) (name : String) (read : Datum → Checked α) : Checked α :=
  match Datum.get? doc name with
  | some d => (read d).under (.name name)
  | none => (Checked.fail .missing).under (.name name)

def optional (doc : Document) (name : String) (absent : α) (read : Datum → Checked α) : Checked α :=
  match Datum.get? doc name with
  | some d => (read d).under (.name name)
  | none => .ok absent

/-- The fault of a field outside the announced names. -/
def stranger? (known : List String) : Datum → Option Fault
  | .text t =>
    if (t.content.proper?.any known.contains) then none
    else some ⟨[.name t.content.replaced], .unknownField⟩
  | k => some ⟨[.name k.inspect], .invalidKey⟩

def strangers (doc : Document) (known : List String) : List Fault :=
  doc.filterMap fun e => stranger? known e.1

/-- A check of a document's fields, together with its other keys. A key with a surrogate is the only
fault that is told. -/
def closed (doc : Document) (known : List String) (c : Checked α) : Checked α :=
  if doc.any fun e => e.1.content?.any fun s => !s.isProper then Checked.fail .brokenText
  else c.withFaults (doc.strangers known)

def anything (d : Datum) : Checked Datum := .ok d

def sequence (d : Datum) : Checked (List Datum) := .ofKind (Coerce.sequence d)

def topic (d : Datum) : Checked Topic := .ofKind (Coerce.topic d)

def natural (least : Nat) (d : Datum) : Checked Nat :=
  match Coerce.integer d with
  | .error kind => Checked.fail kind
  | .ok n => if n < least then Checked.fail .tooSmall else .ok n.toNat

def keyStep : Datum → PathStep
  | .text t => .name t.content.replaced
  | .flag b => .index (if b then 1 else 0)
  | .number n => if Coerce.isWord n then .index n else .name (Datum.numberText n)
  | k => .name k.inspect

end Document

/-- Metadata as a document holds it: each key once, with the values under it. -/
abbrev MetadataEntries := List (MetadataKey × List Datum)

namespace MetadataEntries

/-- An entry under a key that is already there replaces its values and leaves its place. -/
def insert (m : MetadataEntries) (k : MetadataKey) (vs : List Datum) : MetadataEntries :=
  if m.any fun e => e.1 = k then m.map fun e => if e.1 = k then (k, vs) else e
  else m ++ [(k, vs)]

def entry (k v : Datum) : Checked (MetadataKey × List Datum) :=
  Checked.under (Document.keyStep k)
    (Checked.both Prod.mk ((Checked.ofKind (Coerce.metadataKey k)).under (.name "[key]"))
      (Document.sequence v))

def readAll : List (Datum × Datum) → Checked (List (MetadataKey × List Datum))
  | [] => .ok []
  | (k, v) :: r => Checked.both List.cons (entry k v) (readAll r)

def read : Datum → Checked MetadataEntries
  | .map es => (readAll es).map (List.foldl (fun m e => insert m e.1 e.2) [])
  | _ => Checked.fail .notMap

end MetadataEntries

namespace LegacyKind

theorem fits_of_default? {f : Field} {v : Value} (h : default? f = some v) : f.fits v = true := by
  cases f <;> simp [default?] at h
  subst h
  decide

/-- A field of a struct from the document that describes the struct. -/
def readField (doc : Document) (f : Field) : Checked { v : Value // f.fits v = true } :=
  match Datum.get? doc f.name with
  | some d =>
    match h : Coerce.value f d with
    | .ok v => .ok ⟨v, Coerce.fits_of_value h⟩
    | .error kind => .error [⟨[.name f.name], kind⟩]
  | none =>
    match h : default? f with
    | some v => .ok ⟨v, fits_of_default? h⟩
    | none => .error [⟨[.name f.name], .missing⟩]

def readFields (doc : Document) :
    (fs : List Field) → Checked { vs : List Value // Field.fitsAll fs vs = true }
  | [] => .ok ⟨[], rfl⟩
  | f :: fs =>
    Checked.both (fun v vs => ⟨v.1 :: vs.1, by simp [Field.fitsAll, v.2, vs.2]⟩)
      (readField doc f) (readFields doc fs)

def read (kind : LegacyKind) (doc : Document) : Checked LegacyStruct :=
  (doc.closed (kind.fields.map Field.name) (readFields doc kind.fields)).map fun vs =>
    ⟨kind, vs.1, vs.2⟩

end LegacyKind

end EventEnvelope
