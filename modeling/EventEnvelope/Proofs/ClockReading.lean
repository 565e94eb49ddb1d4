import EventEnvelope.Proofs.Performing
import EventEnvelope.Proofs.Restore
import EventEnvelope.Proofs.Timeless
import EventEnvelope.Proofs.TypedEnvelope

/-! What becomes of a clock reading. An operation reads the clock once, and the reading goes into
both of its records: made an integer for the standardized one and for a struct, and as it is at the
end of a row. A reading of nothing is taken for a time not given, so that the standardized record is
stamped with a second reading. -/

namespace EventEnvelope

variable {σ α : Type}

namespace Draft

theorem integer_of_stamps {time : Datum} {version : Int} {t v : Nat}
    (h : stamps time version = .ok (t, v)) : Coerce.integer time = .ok t := by
  obtain ⟨_, _, stamped, _, pair⟩ := Checked.both_eq_ok h
  cases pair
  have read := Checked.under_eq_ok stamped
  unfold Document.natural at read
  split at read
  · cases read
  · next n coerced =>
    split at read
    · cases read
    · cases read
      rw [coerced]
      congr 1
      omega

end Draft

theorem Coerce.integer_of_value {d : Datum} {v : Value} (h : value .timestamp d = .ok v) :
    ∃ n, v = .number n ∧ integer d = .ok n := by
  simp only [value, Field.role] at h
  split at h
  · next n coerced =>
    split at h
    · cases h
    · cases h
      exact ⟨n, rfl, coerced⟩
  · cases h

namespace LegacyKind

theorem timestamp_mem (kind : LegacyKind) : Field.timestamp ∈ kind.fields := by
  cases kind <;> decide

/-- What a struct that was read holds of a field is what was read of the field. -/
theorem get?_of_readFields {doc : Document} {fs : List Field}
    {r : { vs : List Value // Field.fitsAll fs vs = true }} (h : readFields doc fs = .ok r)
    {f : Field} (hf : f ∈ fs) :
    ∃ v, readField doc f = .ok v ∧ ((fs.zip r.1).find? fun e => e.1 = f) = some (f, v.1) := by
  induction fs with
  | nil => cases hf
  | cons g fs ih =>
    obtain ⟨v, vs, first, rest, made⟩ := Checked.both_eq_ok h
    subst made
    by_cases same : g = f
    · subst same
      exact ⟨v, first, by simp⟩
    · obtain ⟨v', read, found⟩ := ih rest ((List.mem_cons.mp hf).resolve_left (Ne.symm same))
      exact ⟨v', read, by simpa [same] using found⟩

theorem get?_of_read {kind : LegacyKind} {doc : Document} {s : LegacyStruct}
    (h : kind.read doc = .ok s) {f : Field} (hf : f ∈ kind.fields) :
    ∃ v, readField doc f = .ok v ∧ s.get? f = some v.1 := by
  obtain ⟨r, fields, rfl⟩ := eq_ok_of_map h
  obtain ⟨v, read, found⟩ := get?_of_readFields (Document.closed_eq_ok fields).1 hf
  refine ⟨v, read, ?_⟩
  rw [LegacyStruct.get?, LegacyStruct.entries, found]
  rfl

end LegacyKind

theorem Field.eq_timestamp {f : Field} (h : f.name = Field.timestamp.name) : f = .timestamp := by
  cases f <;> first | rfl | exact absurd h (by decide)

namespace Layout

theorem get?_structFields (a : Assignment) (now : Datum) (kind : LegacyKind) :
    Datum.get? (structFields a now kind) Field.timestamp.name = some now := by
  have filled (fs : List Field) (timed : Field.timestamp ∈ fs) :
      Datum.get? (fs.filterMap fun f =>
        if f = .timestamp then some (.plain f.name, now)
        else (a f).map fun v => (.plain f.name, v.toDatum)) Field.timestamp.name = some now := by
    induction fs with
    | nil => cases timed
    | cons f fs ih =>
      rw [List.filterMap_cons]
      by_cases same : f = .timestamp
      · subst same
        rfl
      · have rest := ih ((List.mem_cons.mp timed).resolve_left (Ne.symm same))
        rw [if_neg same]
        cases a f with
        | none => exact rest
        | some v =>
          have apart : ¬f.name = Field.timestamp.name :=
            fun named => same (Field.eq_timestamp named)
          rw [Datum.get?] at rest ⊢
          simpa [Datum.plain, Datum.content?, Text.content, apart] using rest
  exact filled kind.fields kind.timestamp_mem

end Layout

/-- How often the clock is read for an operation, given the first reading. -/
def Datum.readings : Datum → Nat
  | .null => 2
  | _ => 1

/-- How the records of an operation keep a reading of the clock. -/
structure Emission.KeepsTime (e : Emission) (layout : Layout) (s : Surroundings) (reading : Datum) :
    Prop where
  /-- Any reading but nothing is the standardized record's time, once it is coerced. -/
  coerced : reading ≠ .null → Coerce.integer reading = .ok e.standard.timestamp
  /-- Nothing is no time, and the clock is read again. -/
  again : reading = .null → ∃ second, s.clock (s.ticks + 1) = .value second ∧
    Coerce.integer second = .ok e.standard.timestamp
  /-- A row ends with the reading as it is. -/
  row : ∀ fs, layout.legacy = .row fs → ∃ values, e.legacy.payload = .tuple (values ++ [reading])
  /-- A struct holds the standardized record's time. -/
  struct : ∀ kind, layout.legacy = .struct kind → ∃ held, e.legacy.payload = .struct held ∧
    held.get? .timestamp = some (.number e.standard.timestamp)

namespace Operation

variable {op : Operation} {args : CallerArguments} {s s' : Surroundings} {e : Emission}

theorem build_reads (h : op.build args s = (.ok e, s')) :
    ∃ reading, s.clock s.ticks = .value reading ∧ s'.ticks = s.ticks + reading.readings ∧
      e.KeepsTime op.layout s reading := by
  obtain ⟨a, checked, now, read, a', settled, m, first, told, late, _, stamped, _, payload⟩ :=
    build_eq_ok h
  -- neither the checks before the reading nor those after it take time
  have before := (op.layout.timeless_check args op.layout.checks .empty).of_eq_ok first
  have after := (op.layout.timeless_settle op.name args op.layout.late a).of_eq_ok late
  obtain ⟨asked, rfl⟩ := Build.now_eq_ok told
  rw [before.reading] at asked
  have ticks : settled.ticks = s.ticks + 1 := by rw [after.ticks, ← before.ticks]
  have clock : settled.clock = s.clock := by rw [after.clock, ← before.clock]
  obtain ⟨emitter, time, t, v, _, timed, stamps, made⟩ := Build.stamp_eq_ok stamped
  have stamp : Coerce.integer time = .ok e.standard.timestamp := by
    rw [made]
    exact Draft.integer_of_stamps stamps
  refine ⟨now, asked, ?_, ?_, ?_, ?_, ?_⟩
  · rcases timed with ⟨rfl, reread⟩ | ⟨present, _, same⟩
    · rw [(Build.now_eq_ok reread).2]
      simp [ticks, Datum.readings]
    · rw [same, ticks]
      cases now <;> first | rfl | exact absurd rfl present
  · intro present
    rcases timed with ⟨absent, _⟩ | ⟨_, same, _⟩
    · exact absurd absent present
    · exact same ▸ stamp
  · intro absent
    rcases timed with ⟨_, reread⟩ | ⟨present, _⟩
    · have second := (Build.now_eq_ok reread).1
      rw [clock, ticks] at second
      exact ⟨time, second, stamp⟩
    · exact absurd absent present
  · intro fs row
    rw [row] at payload
    exact ⟨_, (Except.ok.inj payload).symm⟩
  · intro kind struct
    rw [struct, Layout.legacyPayload] at payload
    obtain ⟨p, held, made⟩ := eq_ok_of_map payload
    obtain ⟨v, read, found⟩ := LegacyKind.get?_of_read held kind.timestamp_mem
    obtain ⟨n, number, coerced⟩ := Coerce.integer_of_value
      (LegacyKind.value_of_readField (Layout.get?_structFields a' now kind) read)
    refine ⟨p, made.symm, ?_⟩
    rcases timed with ⟨rfl, _⟩ | ⟨_, rfl, _⟩
    · cases coerced
    · rw [found, number, Except.ok.inj (coerced.symm.trans stamp)]

end Operation

namespace Emitter

/-- An operation that returns has read the clock once, or twice if it told nothing at first, and its
records keep the reading; an integer is kept as it is. -/
theorem perform_reads (em : Emitter) (t : Transport σ) (op : Operation) (args : CallerArguments)
    {w : World σ} {e : Emission} (h : (em.perform t op args w).1 = .ok e) :
    ∃ reading, w.surroundings.clock w.surroundings.ticks = .value reading ∧
      (em.perform t op args w).2.surroundings.ticks
        = w.surroundings.ticks + reading.readings ∧
      e.KeepsTime op.layout w.surroundings reading ∧
      ∀ k, reading = .number k → reading = .number e.standard.timestamp := by
  cases em.emits_perform t op args w with
  | rejected built ends =>
    rw [ends.reply] at h
    cases h
  | refused built handed ends =>
    rw [ends.reply] at h
    cases h
  | published built handed ends =>
    rw [ends.reply] at h
    cases h
    obtain ⟨reading, told, ticks, keeps⟩ := Operation.build_reads (Prod.ext built rfl)
    obtain ⟨log, reported⟩ := ends.surroundings
    refine ⟨reading, told, ?_, keeps, ?_⟩
    · rw [reported]
      exact ticks
    · rintro k rfl
      rw [Except.ok.inj (keeps.coerced (by simp))]

end Emitter

def CallerArguments.stake : CallerArguments
  | .user => .address ⟨"alice"⟩
  | .token => .address ⟨"token"⟩
  | .amount => .number 5
  | .lockPeriod => .number 86400
  | _ => .null

/-- Surroundings whose clock tells nothing at first. -/
def Surroundings.unsure : Surroundings :=
  { Surroundings.ledger with clock := scripted [.value .null, .value (.number 1700000000)] }

def Transport.keeping : Transport (List Publication) := fun kept p => ⟨.ok (), kept ++ [p], []⟩

namespace Emitter

theorem perform_reads_stake :
    let em : Emitter := ⟨⟨"stellara_event"⟩, true⟩
    let w : World (List Publication) := ⟨.ledger, [], []⟩
    ∃ e, (em.perform .keeping .stake .stake w).1 = .ok e ∧
      (em.perform .keeping .stake .stake w).2.surroundings.ticks = 1 ∧
      ∃ values, e.legacy.payload = .tuple (values ++ [.number e.standard.timestamp]) := by
  intro em w
  obtain ⟨e, returned⟩ : ∃ e, (em.perform .keeping .stake .stake w).1 = .ok e := ⟨_, rfl⟩
  obtain ⟨reading, told, ticks, keeps, whole⟩ := em.perform_reads .keeping .stake .stake returned
  cases told
  rw [whole 1700000000 rfl] at keeps
  exact ⟨e, returned, ticks, keeps.row _ rfl⟩

/-- A stake where the clock tells nothing at first: it is read twice, and the older record ends with
nothing while the standardized one has a time. -/
theorem perform_reads_twice :
    let em : Emitter := ⟨⟨"stellara_event"⟩, true⟩
    let w : World (List Publication) := ⟨.unsure, [], []⟩
    ∃ e, (em.perform .keeping .stake .stake w).1 = .ok e ∧
      (em.perform .keeping .stake .stake w).2.surroundings.ticks = 2 ∧
      e.legacy.payload = .tuple [.number 5, .number 86400, .null] ∧
      e.standard.timestamp = 1700000000 :=
  ⟨_, rfl, rfl, rfl, rfl⟩

end Emitter

end EventEnvelope
