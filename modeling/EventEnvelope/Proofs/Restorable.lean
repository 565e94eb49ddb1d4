import EventEnvelope.Proofs.ForeignRecord
import EventEnvelope.Proofs.RecordAdmission

/-! Values that can be restored. A map with both keys of a struct is taken for a struct, whatever
put the keys there; it is left as it is under a name that denotes none, and has to describe the
struct otherwise. Main statement: restoring what was read returns just when every map that is looked
at in this way passes. -/

namespace EventEnvelope

namespace Datum

/-- Whether the value lists the fields of a struct, and nothing else. -/
def describes (kind : LegacyKind) : Datum → Bool
  | map fs => (LegacyStruct.ofFields kind fs).isOk
  | _ => false

/-- Whether name and fields are those of a struct, or the name is one that denotes nothing. -/
def posesWell (name fields : Datum) : Bool :=
  match LegacyStruct.kindOf name with
  | .error _ => false
  | .ok none => true
  | .ok (some kind) => fields.describes kind

mutual

/-- Every map that is looked at as a struct poses well. Nothing within such a map is looked at. -/
def isRestorable : Datum → Bool
  | tuple xs => areRestorable xs
  | map es =>
    match get? es Wire.structName, get? es Wire.structFields with
    | some name, some fields => posesWell name fields
    | _, _ => entriesRestorable es
  | _ => true

def areRestorable : List Datum → Bool
  | [] => true
  | x :: r => isRestorable x && areRestorable r

def entriesRestorable : List (Datum × Datum) → Bool
  | [] => true
  | (_, v) :: r => isRestorable v && entriesRestorable r

end

/-- The values that a field may be coerced from. -/
def isScalar : Datum → Bool
  | flag _ | number _ | real _ | text _ | bytes _ => true
  | _ => false

end Datum

namespace Coerce

variable {d : Datum}

theorem isScalar_of_integer {n : Int} (h : integer d = .ok n) : d.isScalar = true := by
  cases d with
  | flag | number | real | text | bytes => rfl
  | _ => cases h

theorem isScalar_of_flag {b : Bool} (h : flag d = .ok b) : d.isScalar = true := by
  cases d with
  | flag | number | real | text | bytes => rfl
  | _ => cases h

theorem isScalar_of_value {f : Field} {v : Value} (h : value f d = .ok v) :
    d.isScalar = true := by
  unfold value at h
  cases role : f.role with
  | identity =>
    simp only [role] at h
    split at h
    · rfl
    · cases h
  | text =>
    simp only [role] at h
    split at h
    · rfl
    · cases h
  | flag =>
    simp only [role] at h
    obtain ⟨b, read, _⟩ := eq_ok_of_map h
    exact isScalar_of_flag read
  | number =>
    simp only [role] at h
    split at h
    · next n read => exact isScalar_of_integer read
    · cases h

end Coerce

namespace Datum.HasReadableKeys

variable {fs : List (Datum × Datum)}

/-- Keys that are texts are plain ones: a byte string is no text. -/
theorem distinctTexts (h : HasReadableKeys fs) (texts : ∀ e ∈ fs, e.1.content?.isSome = true) :
    DistinctTexts fs := by
  have plain : HasPlainKeys fs := by
    refine h.plain_of_apart fun e he bs key => ?_
    have text := texts e he
    rw [key] at text
    cases text
  exact ⟨texts, plain.distinct_contents⟩

end Datum.HasReadableKeys

namespace LegacyStruct

variable {log log' : Log} {d : Datum} {xs : List Datum} {es fs gs : List (Datum × Datum)}

/-- Whatever a struct was made of was coerced for one of its fields. -/
theorem scalar_of_ofFields {kind : LegacyKind} {s : LegacyStruct}
    (keys : Datum.HasReadableKeys fs) (h : ofFields kind fs = .ok s) :
    ∀ e ∈ fs, e.2.isScalar = true := by
  unfold ofFields at h
  split at h
  · cases h
  · next none =>
    have texts : ∀ e ∈ fs, e.1.content?.isSome = true := by
      intro e he
      by_contra absent
      apply none
      exact List.any_eq_true.mpr ⟨e, he, by simpa using absent⟩
    cases read : kind.read fs with
    | error faults => rw [read] at h; cases h
    | ok s' =>
      obtain ⟨r, fields, _⟩ := eq_ok_of_map read
      intro e he
      obtain ⟨fields, announced⟩ := Document.closed_eq_ok fields
      obtain ⟨name, listed, named⟩ := announced e he
      obtain ⟨f, hf, rfl⟩ := List.mem_map.mp listed
      obtain ⟨v, value⟩ := LegacyKind.readField_of_readFields fields f hf
      have found : Datum.get? fs f.name = some e.2 :=
        Datum.get?_of_mem (keys.distinctTexts texts) he named
      exact Coerce.isScalar_of_value (LegacyKind.value_of_readField found value)

theorem restore_scalar (h : d.isScalar = true) (log : Log) : restore d log = (.ok d, log) := by
  cases d with
  | flag | number | real | text | bytes => rfl
  | _ => cases h

/-- Only a value without parts is restored to one. -/
theorem eq_of_restore_scalar {d' : Datum} (h : restore d log = (.ok d', log'))
    (scalar : d'.isScalar = true) : d' = d := by
  cases d with
  | tuple xs =>
    obtain ⟨ys, _, _, made⟩ := Reported.bind_eq_ok h
    cases made
    cases scalar
  | ext code bs => cases h; cases scalar
  | map es =>
    rcases restore_map_eq_ok h with ⟨_, fs, rfl, _⟩ | ⟨rfl, _⟩ | ⟨s, rfl⟩ <;> cases scalar
  | _ => cases h; rfl

theorem eq_of_restoreValues_scalar (h : restoreValues fs log = (.ok gs, log'))
    (scalar : ∀ e ∈ gs, e.2.isScalar = true) : gs = fs := by
  induction fs generalizing gs log with
  | nil => cases h; rfl
  | cons e r ih =>
    obtain ⟨v, mid, first, h⟩ := Reported.bind_eq_ok h
    obtain ⟨others, last, rest, h⟩ := Reported.bind_eq_ok h
    cases h
    rw [List.forall_mem_cons] at scalar
    have value : v = e.2 := eq_of_restore_scalar first scalar.1
    have values : others = r := ih rest scalar.2
    rw [value, values]

/-- Fields are restored before a struct is made of them, which makes no difference: fields that
describe a struct are left as they are, and come of no others. -/
theorem restoredFields_ok_iff {kind : LegacyKind} {fields : Datum} (found : fields.IsFound)
    (log : Log) :
    (∃ fs log' s, restoredFields fields log = (.ok fs, log') ∧ ofFields kind fs = .ok s) ↔
      fields.describes kind = true := by
  cases fields with
  | map fs =>
    have keys : Datum.HasReadableKeys fs := by
      cases found with
      | whole h => cases h
      | map keys _ => exact keys
    constructor
    · rintro ⟨gs, log', s, restored, made⟩
      have same := (keys_of_restoreValues restored).1
      have scalar := scalar_of_ofFields (keys.of_keys same) made
      have unchanged : gs = fs := eq_of_restoreValues_scalar restored scalar
      subst unchanged
      rw [Datum.describes, made]
      rfl
    · intro described
      rw [Datum.describes] at described
      cases made : ofFields kind fs with
      | error e => rw [made] at described; cases described
      | ok s =>
        have scalar := scalar_of_ofFields keys made
        have restored := restoreValues_fixed (fun e he => restore_scalar (scalar e he)) log
        exact ⟨fs, log, s, restored, made⟩
  | _ =>
    constructor
    · rintro ⟨gs, log', s, restored, _⟩
      cases restored
    · intro described
      cases described

end LegacyStruct

namespace Reported

variable {α β γ : Type} {P Q : Prop}

/-- A computation returns just when the condition holds, whatever was reported before. -/
def ReturnsIff (x : Reported α) (P : Prop) : Prop := ∀ log, (∃ a log', x log = (.ok a, log')) ↔ P

theorem returnsIff_pure (a : α) : ReturnsIff (pure a) True :=
  fun log => iff_of_true ⟨a, log, rfl⟩ trivial

theorem ReturnsIff.congr {x : Reported α} (h : x.ReturnsIff P) (same : P ↔ Q) : x.ReturnsIff Q :=
  fun log => (h log).trans same

theorem ReturnsIff.map {x : Reported α} (h : x.ReturnsIff P) (f : α → β) :
    ReturnsIff (do return f (← x)) P := by
  intro log
  rw [← h log]
  constructor
  · rintro ⟨b, log', run⟩
    obtain ⟨a, mid, first, _⟩ := bind_eq_ok run
    exact ⟨a, mid, first⟩
  · rintro ⟨a, mid, first⟩
    exact ⟨f a, mid, bind_ok first _⟩

theorem ReturnsIff.both {x : Reported α} {y : Reported β} (first : x.ReturnsIff P)
    (second : y.ReturnsIff Q) (f : α → β → γ) :
    ReturnsIff (do let a ← x; let b ← y; return f a b) (P ∧ Q) := by
  intro log
  constructor
  · rintro ⟨c, log', run⟩
    obtain ⟨a, mid, one, run⟩ := bind_eq_ok run
    obtain ⟨b, last, two, _⟩ := bind_eq_ok run
    exact ⟨(first log).mp ⟨a, mid, one⟩, (second mid).mp ⟨b, last, two⟩⟩
  · rintro ⟨holds, holds'⟩
    obtain ⟨a, mid, one⟩ := (first log).mpr holds
    obtain ⟨b, last, two⟩ := (second mid).mpr holds'
    refine ⟨f a b, last, ?_⟩
    rw [bind_ok one, bind_ok two]
    rfl

end Reported

namespace LegacyStruct

variable {xs : List Datum} {es : List (Datum × Datum)}

theorem restoreAll_returnsIff
    (h : ∀ x ∈ xs, (restore x).ReturnsIff (x.isRestorable = true)) :
    (restoreAll xs).ReturnsIff (Datum.areRestorable xs = true) := by
  induction xs with
  | nil => exact (Reported.returnsIff_pure _).congr (iff_of_true trivial rfl)
  | cons x r ih =>
    rw [List.forall_mem_cons] at h
    apply ((h.1).both (ih h.2) List.cons).congr
    rw [Datum.areRestorable, Bool.and_eq_true]

theorem restoreValues_returnsIff
    (h : ∀ e ∈ es, (restore e.2).ReturnsIff (e.2.isRestorable = true)) :
    (restoreValues es).ReturnsIff (Datum.entriesRestorable es = true) := by
  induction es with
  | nil => exact (Reported.returnsIff_pure _).congr (iff_of_true trivial rfl)
  | cons e r ih =>
    rw [List.forall_mem_cons] at h
    apply ((h.1).both (ih h.2) fun v vs => (e.1, v) :: vs).congr
    rw [Datum.entriesRestorable, Bool.and_eq_true]

theorem restore_posed_returnsIff {name fields : Datum}
    (named : Datum.get? es Wire.structName = some name)
    (listed : Datum.get? es Wire.structFields = some fields) (found : fields.IsFound) :
    (restore (.map es)).ReturnsIff (Datum.posesWell name fields = true) := by
  intro log
  rw [restore_posed named listed, Datum.posesWell]
  cases denoted : kindOf name with
  | error e =>
    constructor
    · rintro ⟨d, log', run⟩
      cases run
    · intro posed
      cases posed
  | ok kind? =>
    cases kind? with
    | none => exact iff_of_true ⟨_, _, rfl⟩ rfl
    | some kind =>
      rw [← restoredFields_ok_iff found log]
      constructor
      · rintro ⟨d, log', run⟩
        obtain ⟨_, _, known, run⟩ := Reported.bind_eq_ok run
        cases known
        obtain ⟨fs, mid, restored, run⟩ := Reported.bind_eq_ok run
        obtain ⟨s, last, made, _⟩ := Reported.bind_eq_ok run
        exact ⟨fs, mid, s, restored, Reported.of_eq_ok made⟩
      · rintro ⟨fs, mid, s, restored, made⟩
        refine ⟨.struct s, mid, ?_⟩
        refine (Reported.bind_ok restored _).trans ?_
        rw [made]
        rfl

/-- A value that was read is restored just when each map in it that is looked at as a struct poses
well. -/
theorem restore_returnsIff {d : Datum} (found : d.IsFound) :
    (restore d).ReturnsIff (d.isRestorable = true) := by
  induction found with
  | @whole d whole =>
    intro log
    cases d with
    | null | flag | number | real | text | bytes | ext | timestamp =>
      exact iff_of_true ⟨_, _, rfl⟩ rfl
    | _ => cases whole
  | tuple _ ih => exact (restoreAll_returnsIff ih).map Datum.tuple
  | @map es keys values ih =>
    have unposed (free : Datum.posesAsStruct es = false) :
        (restore (.map es)).ReturnsIff (Datum.entriesRestorable es = true) := by
      rw [restore_map free]
      exact (restoreValues_returnsIff ih).map Datum.map
    rw [Datum.isRestorable]
    cases named : Datum.get? es Wire.structName with
    | none =>
      apply unposed
      rw [posesAsStruct_eq, named]
      rfl
    | some name =>
      cases listed : Datum.get? es Wire.structFields with
      | none =>
        apply unposed
        rw [posesAsStruct_eq, listed]
        exact Bool.and_false _
      | some fields =>
        obtain ⟨e, he, rfl⟩ := Datum.mem_of_get? listed
        exact restore_posed_returnsIff named listed (values e he)

end LegacyStruct

end EventEnvelope
