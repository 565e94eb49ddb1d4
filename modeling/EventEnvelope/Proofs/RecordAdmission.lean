import EventEnvelope.Proofs.ArgumentAdmission
import EventEnvelope.Proofs.Restore
import EventEnvelope.Proofs.TypedEnvelope

/-! Which records can be made of checked arguments. A draft is stamped, metadata is laid out and a
struct is filled under conditions of their own, each stated on the values that are put in. -/

namespace EventEnvelope

theorem Field.role_of_isCount {f : Field} (h : f.isCount = true) : f.role = .number := by
  cases f <;> first | rfl | cases h

namespace Value

/-- A value of a field's kind fits the field unless the field counts and the value is negative. -/
theorem fits_iff {f : Field} {v : Value} (role : v.role = f.role) :
    f.fits v = true ↔ (f.isCount = true → ∀ n, v = .number n → 0 ≤ n) := by
  cases v with
  | number n => cases count : f.isCount <;> simp [Field.fits, ← role, Value.role, count]
  | _ => simp [Field.fits, ← role, Value.role]

end Value

namespace Coerce

/-- Nothing is coerced about a value of the field's kind. -/
theorem eq_of_value {f : Field} {v v' : Value} (role : v.role = f.role)
    (h : value f v.toDatum = .ok v') : v' = v := by
  cases v with
  | number n =>
    simp only [value, ← role, Value.role, Value.toDatum, integer] at h
    split at h <;> cases h
    rfl
  | _ =>
    simp only [value, ← role, Value.role, Value.toDatum] at h
    cases h
    rfl

end Coerce

namespace LegacyKind

theorem fits_of_readField {doc : Document} {f : Field} {v : Value}
    {r : { v : Value // f.fits v = true }} (found : Datum.get? doc f.name = some v.toDatum)
    (role : v.role = f.role) (h : readField doc f = .ok r) : f.fits v = true := by
  have coerced := value_of_readField found h
  exact Coerce.eq_of_value role coerced ▸ r.2

theorem readField_of_readFields {doc : Document} {fs : List Field}
    {r : { vs : List Value // Field.fitsAll fs vs = true }} (h : readFields doc fs = .ok r) :
    ∀ f ∈ fs, ∃ v, readField doc f = .ok v := by
  induction fs with
  | nil => simp
  | cons f fs ih =>
    obtain ⟨v, vs, first, rest, _⟩ := Checked.both_eq_ok h
    rw [List.forall_mem_cons]
    exact ⟨⟨v, first⟩, ih rest⟩

theorem fitsAll_map {fs : List Field} {v : Field → Value} (h : ∀ f ∈ fs, f.fits (v f) = true) :
    Field.fitsAll fs (fs.map v) = true := by
  induction fs with
  | nil => rfl
  | cons f fs ih =>
    rw [List.forall_mem_cons] at h
    rw [List.map_cons, Field.fitsAll, h.1, ih h.2]
    rfl

/-- Named values that fit are read as they are. -/
theorem read_of_fits {kind : LegacyKind} {v : Field → Value}
    (h : ∀ f ∈ kind.fields, f.fits (v f) = true) :
    kind.read (kind.fields.map fun f => (.plain f.name, (v f).toDatum))
      = .ok ⟨kind, kind.fields.map v, fitsAll_map h⟩ := by
  let s : LegacyStruct := ⟨kind, kind.fields.map v, fitsAll_map h⟩
  have doc : s.toDocument = kind.fields.map fun f => (Datum.plain f.name, (v f).toDatum) := by
    rw [LegacyStruct.toDocument, LegacyStruct.entries, ← List.map_prod_left_eq_zip, List.map_map]
    rfl
  exact doc ▸ s.read_toDocument

/-- Named values of the right kinds make a struct just when each of them fits. -/
theorem read_ok_iff {kind : LegacyKind} {v : Field → Value}
    (role : ∀ f ∈ kind.fields, (v f).role = f.role) :
    (∃ s, kind.read (kind.fields.map fun f => (.plain f.name, (v f).toDatum)) = .ok s) ↔
      ∀ f ∈ kind.fields, f.fits (v f) = true := by
  constructor
  · rintro ⟨s, read⟩ f hf
    obtain ⟨vs, fields, _⟩ := eq_ok_of_map read
    obtain ⟨r, field⟩ := readField_of_readFields (Document.closed_eq_ok fields).1 f hf
    have found := Datum.get?_of_mem (kind.distinctTexts fun f => (v f).toDatum)
      (List.mem_map_of_mem hf) rfl
    exact fits_of_readField found (role f hf) field
  · intro h
    exact ⟨_, read_of_fits h⟩

/-- A struct made of named values of the right kinds holds each of them under its name. -/
theorem entries_of_read {kind : LegacyKind} {v : Field → Value} {s : LegacyStruct}
    (role : ∀ f ∈ kind.fields, (v f).role = f.role)
    (h : kind.read (kind.fields.map fun f => (.plain f.name, (v f).toDatum)) = .ok s) :
    s.kind = kind ∧ s.entries = kind.fields.map fun f => (f, v f) := by
  have fits := (read_ok_iff role).mp ⟨s, h⟩
  cases h.symm.trans (read_of_fits fits)
  exact ⟨rfl, List.map_prod_left_eq_zip.symm⟩

end LegacyKind

/-- What can be made an integer is a natural number from the least one onward. -/
theorem Document.natural_eq_ok_iff {least m : Nat} {d : Datum} {n : Int}
    (coerced : Coerce.integer d = .ok n) :
    natural least d = .ok m ↔ least ≤ n ∧ m = n.toNat := by
  simp only [natural, coerced]
  split
  · next below => simp [Checked.fail, Int.not_le.mpr below]
  · next reached => simp [Int.not_lt.mp reached, eq_comm]

theorem Draft.stamps_eq_ok_iff {time : Datum} {n version : Int} {p : Nat × Nat}
    (coerced : Coerce.integer time = .ok n) :
    stamps time version = .ok p ↔ (0 ≤ n ∧ 1 ≤ version) ∧ p = (n.toNat, version.toNat) := by
  constructor
  · intro h
    obtain ⟨t, v, timed, versioned, rfl⟩ := Checked.both_eq_ok h
    have time := (Document.natural_eq_ok_iff coerced).mp (Checked.under_eq_ok timed)
    have current := (Document.natural_eq_ok_iff rfl).mp (Checked.under_eq_ok versioned)
    exact ⟨⟨time.1, current.1⟩, by rw [time.2, current.2]⟩
  · rintro ⟨⟨begun, first⟩, rfl⟩
    have timed : Document.natural 0 time = .ok n.toNat :=
      (Document.natural_eq_ok_iff coerced).mpr ⟨begun, rfl⟩
    have current : Document.natural 1 (.number version) = .ok version.toNat :=
      (Document.natural_eq_ok_iff rfl).mpr ⟨first, rfl⟩
    rw [stamps, timed, current]
    rfl

/-- The time that a record is stamped with: the one it was given, or else the clock's, as an
integer. -/
inductive Surroundings.Times (s : Surroundings) : Datum → Int → Prop
  | given {d : Datum} {n : Int} (coerced : Coerce.integer d = .ok n) : s.Times d n
  | clock {d : Datum} {n : Int} (reading : s.clock s.ticks = .value d)
      (coerced : Coerce.integer d = .ok n) : s.Times .null n

namespace Build

theorem settles_identity (s : Surroundings) :
    identity.Settles s True fun d s' => d = s.identity ∧ s' = s :=
  .returned rfl trivial ⟨rfl, rfl⟩

theorem settles_version (s : Surroundings) :
    version.Settles s True fun v s' => v = s.version ∧ s' = s :=
  .returned rfl trivial ⟨rfl, rfl⟩

theorem now_of_reading {s : Surroundings} {d : Datum} (reading : s.clock s.ticks = .value d) :
    now s = (.ok d, { s with ticks := s.ticks + 1 }) := by
  unfold now
  rw [reading]

/-- However the time was come by, it is checked together with the version in force. -/
theorem settles_stamps (d : Draft) (emitter : Address) {read : Build Datum} {n : Int}
    {s s₁ : Surroundings}
    (told : read.Settles s True fun time s' => Coerce.integer time = .ok n ∧ s' = s₁)
    (inForce : s₁.version = s.version) :
    Settles (read >>= fun time => version >>= fun current =>
      match Draft.stamps time current with
      | .ok (t, v) => pure (d.stamped emitter t v)
      | .error faults => throw (.encoding (.envelope d.topic faults))) s
      (0 ≤ n ∧ 1 ≤ s.version) fun e s' =>
        e = d.stamped emitter n.toNat s.version.toNat ∧ s' = s₁ := by
  refine (told.bind ?_).congr (and_iff_right trivial)
  rintro time _ _ ⟨coerced, rfl⟩
  rw [← inForce]
  refine ((settles_version _).bind ?_).congr (and_iff_right trivial)
  rintro _ s' _ ⟨rfl, rfl⟩
  cases stamps : Draft.stamps time s'.version with
  | ok p =>
    obtain ⟨begun, rfl⟩ := (Draft.stamps_eq_ok_iff coerced).mp stamps
    exact .returned rfl begun ⟨rfl, rfl⟩
  | error faults =>
    refine .refused rfl ?_ fun _ => ⟨.envelope d.topic faults, rfl⟩
    intro begun
    cases stamps.symm.trans ((Draft.stamps_eq_ok_iff coerced).mpr ⟨begun, rfl⟩)

/-- A draft is stamped when the host has an identity, and time and version have begun. The clock is
read once, and only when no time was given. -/
theorem settles_stamp (d : Draft) {given : Datum} {n : Int} {s : Surroundings}
    (timed : s.Times given n) :
    (stamp d given).Settles s (s.identity.IsIdentity ∧ 0 ≤ n ∧ 1 ≤ s.version) fun e s' =>
      (∃ emitter, Admission.address s.identity = .ok emitter ∧
        e = d.stamped emitter n.toNat s.version.toNat) ∧
      (given = .null → s'.ticks = s.ticks + 1) ∧ (given ≠ .null → s' = s) := by
  refine ((settles_identity s).bind ?_).congr (and_iff_right trivial)
  rintro _ s _ ⟨rfl, rfl⟩
  refine ((settles_admitted _ s).congr (Admission.address_ok_iff _)).bind ?_
  rintro emitter s _ ⟨identified, rfl⟩
  cases timed with
  | given coerced =>
    cases given with
    | null => cases coerced
    | _ =>
      refine (settles_stamps d emitter (settles_pure ⟨coerced, rfl⟩) rfl).imp ?_
      rintro e _ _ ⟨made, rfl⟩
      exact ⟨⟨emitter, identified, made⟩, by simp, fun _ => rfl⟩
  | clock reading coerced =>
    have told : now.Settles s True fun time s' =>
        Coerce.integer time = .ok n ∧ s' = { s with ticks := s.ticks + 1 } :=
      .returned (now_of_reading reading) trivial ⟨coerced, rfl⟩
    refine (settles_stamps d emitter told rfl).imp ?_
    rintro e _ _ ⟨made, rfl⟩
    exact ⟨⟨emitter, identified, made⟩, fun _ => rfl, by simp⟩

theorem settles_now {s : Surroundings} {now : Int}
    (reading : s.clock s.ticks = .value (.number now)) :
    Build.now.Settles s True fun d s' =>
      d = .number now ∧ s' = { s with ticks := s.ticks + 1 } :=
  .returned (now_of_reading reading) trivial ⟨rfl, rfl⟩

end Build

namespace Layout

theorem metadataOf_ok_iff {a : Assignment} {sources : List (MetadataKey × Source)} :
    (∃ m, metadataOf a sources = .ok m) ↔ ∀ e ∈ sources, ∃ v, sourceValue a e.2 = .ok v := by
  induction sources with
  | nil => simp [metadataOf]
  | cons e r ih =>
    rw [List.forall_mem_cons, ← ih]
    simp only [metadataOf]
    cases sourceValue a e.2 with
    | error fault => simp
    | ok v =>
      cases v with
      | none => simp
      | some v => cases metadataOf a r <;> simp [Except.map]

end Layout

end EventEnvelope
