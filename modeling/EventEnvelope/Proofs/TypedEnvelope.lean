import EventEnvelope.Proofs.DistinctKeys
import EventEnvelope.Proofs.Session
import EventEnvelope.Version

/-! What the builder makes sure of: an envelope that it returns is typed throughout, its metadata
keys are distinct, and its version is at least one. The same holds of the standardized record of
every request. -/

namespace EventEnvelope

namespace Envelope

/-- Identities and values of an envelope that are typed, under distinct metadata keys. -/
structure IsTyped (e : Envelope) : Prop where
  emitter : ∃ a, e.emitter = .address a
  actor : e.actor = .null ∨ ∃ a, e.actor = .address a
  data : ∃ vs : List Value, e.data = vs.map Value.toDatum
  metadata : ∃ m : Metadata, e.metadata = m.toEntries ∧ (m.map Prod.fst).Nodup
  version : 1 ≤ e.version

end Envelope

namespace Checked

variable {α β γ : Type}

theorem under_eq_ok {step : PathStep} {c : Checked α} {a : α} (h : c.under step = .ok a) :
    c = .ok a := by
  cases c with
  | error faults => cases h
  | ok b => exact h

theorem both_eq_ok {f : α → β → γ} {ca : Checked α} {cb : Checked β} {c : γ}
    (h : both f ca cb = .ok c) : ∃ a b, ca = .ok a ∧ cb = .ok b ∧ f a b = c := by
  cases ca <;> cases cb <;> cases h
  exact ⟨_, _, rfl, rfl, rfl⟩

theorem withFaults_eq_ok {c : Checked α} {faults : List Fault} {a : α}
    (h : c.withFaults faults = .ok a) : c = .ok a := by
  unfold withFaults at h
  split at h
  · split at h
    · exact h
    · cases h
  · cases h

theorem faultless_of_withFaults {c : Checked α} {faults : List Fault} {a : α}
    (h : c.withFaults faults = .ok a) : faults = [] := by
  unfold withFaults at h
  split at h
  · split at h
    · next none => exact List.isEmpty_iff.mp none
    · cases h
  · cases h

theorem withFaults_nil (c : Checked α) : c.withFaults [] = c := by
  cases c with
  | ok a => rfl
  | error faults => exact congrArg Except.error (List.append_nil faults)

end Checked

namespace Document

variable {α : Type} {doc : Document} {known : List String} {c : Checked α} {a : α}

/-- Every key of the document is one of the announced names. -/
def Announced (doc : Document) (known : List String) : Prop :=
  ∀ e ∈ doc, ∃ name ∈ known, e.1.content? = some (.proper name)

theorem stranger?_eq_none_iff {k : Datum} :
    stranger? known k = none ↔ ∃ name ∈ known, k.content? = some (.proper name) := by
  cases k with
  | text t =>
    rw [stranger?, Datum.content?]
    cases t.content with
    | proper s => simp [CodeText.proper?]
    | broken s u rest => simp [CodeText.proper?]
  | _ => simp [stranger?, Datum.content?]

theorem strangers_eq_nil_iff : doc.strangers known = [] ↔ doc.Announced known := by
  rw [strangers, List.filterMap_eq_nil_iff]
  exact forall₂_congr fun _ _ => stranger?_eq_none_iff

theorem closed_eq (h : doc.Announced known) (c : Checked α) : doc.closed known c = c := by
  have proper : doc.any (fun e => e.1.content?.any fun s => !s.isProper) = false := by
    rw [List.any_eq_false]
    intro e he
    obtain ⟨name, -, named⟩ := h e he
    simp [named, CodeText.isProper, CodeText.proper?]
  rw [closed, proper, strangers_eq_nil_iff.mpr h]
  exact Checked.withFaults_nil c

theorem closed_eq_ok (h : doc.closed known c = .ok a) : c = .ok a ∧ doc.Announced known := by
  unfold closed at h
  split at h
  · cases h
  · exact ⟨Checked.withFaults_eq_ok h, strangers_eq_nil_iff.mp (Checked.faultless_of_withFaults h)⟩

end Document

namespace Metadata

theorem nodup_of_go {seen es m : Metadata} (h : ofEntries.go seen es = .ok m)
    (distinct : (seen.map Prod.fst).Nodup) : (m.map Prod.fst).Nodup := by
  induction es generalizing seen with
  | nil => cases h; exact distinct
  | cons e r ih =>
    simp only [ofEntries.go] at h
    split at h
    · cases h
    · next apart =>
      refine ih h (nodup_map_fst_concat distinct fun x hx same => apart ?_)
      exact List.any_eq_true.mpr ⟨x, hx, decide_eq_true same⟩

/-- A mapping is refused unless its keys are distinct. -/
theorem nodup_of_ofEntries {es m : Metadata} (h : ofEntries es = .ok m) :
    (m.map Prod.fst).Nodup :=
  nodup_of_go h List.nodup_nil

@[simp] theorem map_fst_toEntries (m : Metadata) : m.toEntries.map Prod.fst = m.map Prod.fst := by
  simp [toEntries]

end Metadata

namespace Draft

theorem one_le_of_stamps {timestamp : Datum} {version : Int} {t v : Nat}
    (h : stamps timestamp version = .ok (t, v)) : 1 ≤ v := by
  obtain ⟨_, _, _, stamped, pair⟩ := Checked.both_eq_ok h
  cases pair
  have read := Checked.under_eq_ok stamped
  simp only [Document.natural, Coerce.integer] at read
  split at read
  · cases read
  · cases read
    omega

theorem stamped_isTyped {d : Draft} (distinct : (d.metadata.map Prod.fst).Nodup) (emitter : Address)
    (timestamp : Nat) {version : Nat} (positive : 1 ≤ version) :
    (d.stamped emitter timestamp version).IsTyped where
  emitter := ⟨emitter, rfl⟩
  actor := by
    change d.actorDatum = .null ∨ ∃ a, d.actorDatum = .address a
    unfold actorDatum
    cases d.actor with
    | none => exact .inl rfl
    | some a => exact .inr ⟨a, rfl⟩
  data := ⟨d.data, rfl⟩
  metadata := ⟨d.metadata, rfl, distinct⟩
  version := positive

end Draft

namespace Build

theorem stamp_isTyped {d : Draft} {timestamp : Datum} {s s' : Surroundings} {e : Envelope}
    (distinct : (d.metadata.map Prod.fst).Nodup) (h : stamp d timestamp s = (.ok e, s')) :
    e.IsTyped := by
  obtain ⟨emitter, time, t, v, _, _, stamps, rfl⟩ := stamp_eq_ok h
  exact Draft.stamped_isTyped distinct emitter t (Draft.one_le_of_stamps stamps)

theorem metadata_distinct {d : Datum} {s s' : Surroundings} {m : Metadata}
    (h : metadata d s = (.ok m, s')) : (m.map Prod.fst).Nodup := by
  cases d with
  | map es =>
    obtain ⟨entries, mid, _, last⟩ := bind_eq_ok h
    exact Metadata.nodup_of_ofEntries (admitted_eq_ok last).1
  | _ => cases h

theorem envelope_isTyped {topic actor data metadata timestamp : Datum} {s s' : Surroundings}
    {e : Envelope} (h : envelope topic actor data metadata timestamp s = (.ok e, s')) :
    e.IsTyped := by
  obtain ⟨t, s₁, _, h⟩ := bind_eq_ok h
  obtain ⟨d, s₂, drafted, h⟩ := bind_eq_ok h
  obtain ⟨a, s₃, _, drafted⟩ := bind_eq_ok drafted
  obtain ⟨vs, s₄, _, drafted⟩ := bind_eq_ok drafted
  obtain ⟨m, s₅, keyed, drafted⟩ := bind_eq_ok drafted
  cases drafted
  exact stamp_isTyped (metadata_distinct keyed) h

end Build

namespace Layout

theorem metadataOf_sublist {a : Assignment} {sources : List (MetadataKey × Source)} {m : Metadata}
    (h : metadataOf a sources = .ok m) :
    (m.map Prod.fst).Sublist (sources.map Prod.fst) := by
  induction sources generalizing m with
  | nil => cases h; exact .slnil
  | cons source r ih =>
    simp only [metadataOf] at h
    split at h
    · cases h
    · exact (ih h).cons _
    · cases others : metadataOf a r with
      | error fault => rw [others] at h; cases h
      | ok m' =>
        rw [others] at h
        cases h
        exact (ih others).cons_cons _

end Layout

namespace Operation

theorem nodup_keys (op : Operation) : (op.layout.metadata.map Prod.fst).Nodup := by
  cases op <;> decide

theorem build_isTyped {op : Operation} {args : CallerArguments} {s s' : Surroundings}
    {e : Emission} (h : op.build args s = (.ok e, s')) : e.standard.IsTyped := by
  obtain ⟨_, _, _, _, _, _, _, _, _, _, entries, stamped, _, _⟩ := build_eq_ok h
  exact Build.stamp_isTyped ((Layout.metadataOf_sublist entries).nodup op.nodup_keys) stamped

end Operation

/-- Whatever a request builds, its standardized record is typed. -/
theorem Request.standard_isTyped {q : Request} {s s' : Surroundings} {r : Records}
    (h : q.build s = (.ok r, s')) : r.standard.IsTyped := by
  cases builds_of_build h with
  | operation bound built => exact Operation.build_isTyped built
  | standard built =>
    obtain ⟨_, _, _, stamped⟩ := Build.bind_eq_ok built
    exact Build.envelope_isTyped stamped

/-- Surroundings of a component that stamps the second schema version. -/
def Surroundings.ledger : Surroundings where
  config := .ofEnvironment []
  identity := .address ⟨"ledger"⟩
  clock _ := .value (.number 1700000000)
  ticks := 0
  version := 2
  log := []

/-- A transfer of `2 ^ 127` units of a token. -/
def Envelope.transferred : Envelope where
  topic := .transfer
  emitter := .address ⟨"ledger"⟩
  actor := .address ⟨"alice"⟩
  data := [.number 0x80000000000000000000000000000000, .symbol ⟨"GOLD"⟩]
  metadata := [(.recipient, [.address ⟨"bob"⟩]), (.token, [.symbol ⟨"GOLD"⟩])]
  timestamp := 1700000000
  version := 2

theorem Build.envelope_transferred :
    Build.envelope (.topic .transfer) (.address ⟨"alice"⟩) (.list Envelope.transferred.data)
      (.map [(.text (.key .recipient), .list [.address ⟨"bob"⟩]),
        (.text (.key .token), .list [.symbol ⟨"GOLD"⟩])]) .null .ledger
      = (.ok .transferred, { Surroundings.ledger with ticks := 1 }) := by
  rfl

end EventEnvelope
