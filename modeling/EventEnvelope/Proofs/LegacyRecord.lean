import EventEnvelope.Proofs.Restore
import EventEnvelope.Proofs.Session
import EventEnvelope.Proofs.Timeless
import EventEnvelope.Proofs.TypedEnvelope

/-! The older record of an operation. Its channel starts with a topic and goes on with typed values;
its payload is one value, a row ending with the clock reading, or a struct. Building reads the
clock that the host provided and puts no other in its place. -/

namespace EventEnvelope

/-- Whatever the clock answers is an integer; it may also raise. -/
def Surroundings.TellsIntegers (s : Surroundings) : Prop :=
  ∀ n d, s.clock n = .value d → ∃ k, d = .number k

theorem Surroundings.ledger_tellsIntegers : ledger.TellsIntegers := by
  rintro n d ⟨⟩
  exact ⟨_, rfl⟩

namespace Datum

/-- A value of a row: typed, nothing, or plain text. -/
def IsRowValue (d : Datum) : Prop := d.IsSettled ∨ ∃ s, d = .plain s

namespace IsRowValue

variable {d : Datum}

theorem isPortable (h : d.IsRowValue) : d.isPortable = true := by
  rcases h with settled | ⟨s, rfl⟩
  · exact settled.isPortable
  · rfl

theorem isFreeOfPoses (h : d.IsRowValue) : d.isFreeOfPoses = true := by
  rcases h with settled | ⟨s, rfl⟩
  · exact settled.isFreeOfPoses
  · rfl

theorem canonical (h : d.IsRowValue) : d.canonical = d := by
  rcases h with settled | ⟨s, rfl⟩
  · exact settled.canonical
  · rfl

end IsRowValue

inductive IsLegacyPayload : Datum → Prop
  | single {d : Datum} (settled : d.IsSettled) : IsLegacyPayload d
  | row {ds : List Datum} (values : ∀ d ∈ ds, d.IsRowValue) : IsLegacyPayload (.tuple ds)
  | struct (s : LegacyStruct) : IsLegacyPayload (.struct s)

/-- A payload of the older format comes back as it was. -/
theorem IsLegacyPayload.carried {d : Datum} (h : d.IsLegacyPayload) :
    d.isPortable = true ∧ d.isFreeOfPoses = true ∧ d.canonical = d := by
  cases h with
  | single settled => exact ⟨settled.isPortable, settled.isFreeOfPoses, settled.canonical⟩
  | @row ds values =>
    rw [isPortable, isFreeOfPoses, canonical, arePortable_eq_all, areFreeOfPoses_eq_all,
      canonicalAll_eq_map, List.all_eq_true, List.all_eq_true]
    refine ⟨fun d hd => (values d hd).isPortable, fun d hd => (values d hd).isFreeOfPoses, ?_⟩
    rw [List.map_congr_left fun d hd => (values d hd).canonical, List.map_id']
  | struct s => exact ⟨rfl, rfl, rfl⟩

end Datum

/-- A record of the older format: a topic with values, and a payload. -/
def Publication.IsLegacy (p : Publication) : Prop :=
  (∃ (topic : Topic) (vs : List Value), p.channel = .topic topic :: vs.map Value.toDatum) ∧
    p.payload.IsLegacyPayload

namespace Layout

theorem isRowValue_rowValue {a : Assignment} {f : Field} {d : Datum}
    (h : rowValue a f = some d) : d.IsRowValue := by
  unfold rowValue at h
  split at h
  · cases h
    exact .inr ⟨_, rfl⟩
  · obtain ⟨v, _, rfl⟩ := Option.map_eq_some_iff.mp h
    exact .inl (.inr ⟨v, rfl⟩)

theorem isLegacyPayload_legacyPayload {a : Assignment} {k : Int} {payload : LegacyPayload}
    {d : Datum} (h : legacyPayload a (.number k) payload = .ok d) : d.IsLegacyPayload := by
  cases payload with
  | single f =>
    cases h
    refine .single ?_
    cases a f with
    | none => exact .inl rfl
    | some v => exact .inr ⟨v, rfl⟩
  | row fs =>
    cases h
    refine .row fun d hd => ?_
    rcases List.mem_append.mp hd with listed | now
    · obtain ⟨f, _, h⟩ := List.mem_filterMap.mp listed
      exact isRowValue_rowValue h
    · rw [List.mem_singleton.mp now]
      exact .inl (.inr ⟨.number k, rfl⟩)
  | struct kind =>
    obtain ⟨s, _, rfl⟩ := eq_ok_of_map h
    exact .struct s

theorem isLegacy_channel (l : Layout) (a : Assignment) :
    ∃ (topic : Topic) (vs : List Value),
      l.legacyChannel a = .topic topic :: vs.map Value.toDatum := by
  refine ⟨l.legacyTopic, l.legacyKeys.filterMap a, ?_⟩
  rw [legacyChannel, List.map_filterMap]

end Layout

/-- With a clock that tells integers, the older record of an operation has the older form. -/
theorem Operation.build_isLegacy {op : Operation} {args : CallerArguments} {s s' : Surroundings}
    {e : Emission} (integers : s.TellsIntegers) (h : op.build args s = (.ok e, s')) :
    e.legacy.IsLegacy := by
  obtain ⟨a, s₁, now, s₂, a', _, _, checked, read, _, _, _, channel, payload⟩ := build_eq_ok h
  have kept := (op.layout.timeless_check args op.layout.checks .empty).of_eq_ok checked
  obtain ⟨k, rfl⟩ := integers _ _ (kept.clock ▸ (Build.now_eq_ok read).1)
  exact ⟨channel ▸ op.layout.isLegacy_channel a', Layout.isLegacyPayload_legacyPayload payload⟩

end EventEnvelope
