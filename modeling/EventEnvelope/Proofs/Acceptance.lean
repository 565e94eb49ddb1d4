import EventEnvelope.Codec.Event
import EventEnvelope.Proofs.TypedEnvelope
import Mathlib.Data.List.Forall2

/-! What a consumer accepts. A document that shows the parts of an envelope, with sequences of any
form and plain text for closed vocabularies, is read as that very envelope; a version beyond the
consumer's own is reported once and accepted all the same. -/

namespace EventEnvelope

namespace Datum

theorem word?_of_content? {d : Datum} {s : String} (h : d.content? = some (.proper s)) :
    Coerce.word? d = some s := by
  obtain ⟨t, rfl, -⟩ := eq_text_of_content? h
  rw [Coerce.word?, proper?, h]
  · rfl
  · rintro _ ⟨⟩

theorem atLeast?_number (a b : Int) : atLeast? (.number a) (.number b) = some (decide (b ≤ a)) := by
  -- numbers of all kinds compare on one scale, which no proof has to compute
  have positive : (0 : Int) < Binary64.unitsPerOne := by decide +kernel
  have scaled : b * Binary64.unitsPerOne ≤ a * Binary64.unitsPerOne ↔ b ≤ a :=
    Int.mul_le_mul_iff_of_pos_right positive
  simp only [atLeast?, leafAtLeast?, quantity?, Quantity.atLeast, scaled]

end Datum

namespace Version

/-- A version that is a number is understood, or reported once. -/
theorem check_number (current version : Int) (topic : Datum) (log : Log) :
    check current (.number version) topic log
      = (.ok (decide (version ≤ current)), log ++ if current < version then
          [warning current (.number version) topic] else []) := by
  have compatible : isCompatible current (.number version) = .ok (decide (version ≤ current)) := by
    rw [isCompatible, Datum.atLeast?_number]
  unfold check
  rw [compatible, Reported.of, Reported.bind_apply, Reported.pure_apply]
  by_cases newer : current < version
  · have : ¬version ≤ current := by omega
    simp [newer, this, Reported.bind_apply, Reported.pure_apply, Reported.report]
  · have : version ≤ current := by omega
    simp [newer, this, Reported.pure_apply]

end Version

namespace MetadataEntries

/-- An entry of a document that shows an entry of metadata. -/
def Shows (shown : Datum × Datum) (e : MetadataKey × List Datum) : Prop :=
  shown.1.content? = some (.proper e.1.id) ∧ shown.2.sequence? = some e.2

theorem entry_of_shows {shown : Datum × Datum} {e : MetadataKey × List Datum}
    (h : Shows shown e) : entry shown.1 shown.2 = .ok e := by
  have key : Coerce.metadataKey shown.1 = .ok e.1 := by
    rw [Coerce.metadataKey, Datum.word?_of_content? h.1, Option.bind_some, MetadataKey.ofId?_id]
  have values : Document.sequence shown.2 = .ok e.2 := by
    rw [Document.sequence, Coerce.sequence, h.2]
    rfl
  rw [entry, key, values]
  rfl

theorem readAll_of_shows {shown : List (Datum × Datum)} {m : MetadataEntries}
    (h : List.Forall₂ Shows shown m) : readAll shown = .ok m := by
  induction h with
  | nil => rfl
  | cons first _ ih => rw [readAll, entry_of_shows first, ih]; rfl

theorem read_of_shows {shown : List (Datum × Datum)} {m : MetadataEntries}
    (h : List.Forall₂ Shows shown m) (distinct : (m.map Prod.fst).Nodup) :
    read (.map shown) = .ok m := by
  rw [read, readAll_of_shows h]
  exact congrArg Except.ok (foldl_insert (m := []) distinct)

end MetadataEntries

namespace Document

theorem topic_id (t : Topic) : topic (.plain t.id) = .ok t := by
  have word : Coerce.word? (.plain t.id) = some t.id := Datum.word?_of_content? rfl
  rw [topic, Coerce.topic, word, Option.bind_some, Topic.ofId?_id]
  rfl

theorem natural_cast {least n : Nat} (h : least ≤ n) : natural least (.number n) = .ok n := by
  simp only [natural, Coerce.integer]
  rw [if_neg (by omega), Int.toNat_natCast]

end Document

namespace Envelope

/-- A document of plain data that shows an envelope. -/
structure Shows (e : Envelope) (data : Datum) (metadata : List (Datum × Datum)) : Prop where
  data : data.sequence? = some e.data
  metadata : List.Forall₂ MetadataEntries.Shows metadata e.metadata
  distinct : (e.metadata.map Prod.fst).Nodup
  version : 1 ≤ e.version

/-- The document in which an envelope is shown. -/
def shownAs (e : Envelope) (data : Datum) (metadata : List (Datum × Datum)) : Document :=
  documentOf (.plain e.topic.id) e.emitter e.actor data (.map metadata) (.number e.timestamp)
    (.number e.version)

variable {e : Envelope} {data : Datum} {metadata : List (Datum × Datum)}

section Fields

variable (topic emitter actor data metadata timestamp version : Datum)

theorem get?_documentOf :
    let doc := documentOf topic emitter actor data metadata timestamp version
    Datum.get? doc topicField = some topic ∧ Datum.get? doc emitterField = some emitter ∧
      Datum.get? doc actorField = some actor ∧ Datum.get? doc dataField = some data ∧
      Datum.get? doc metadataField = some metadata ∧
      Datum.get? doc timestampField = some timestamp ∧
      Datum.get? doc versionField = some version := by
  simp [documentOf, Datum.get?, Datum.plain, Datum.content?, Text.content, topicField,
    emitterField, actorField, dataField, metadataField, timestampField, versionField]

theorem announced_documentOf :
    (documentOf topic emitter actor data metadata timestamp version).Announced fieldNames := by
  simp [documentOf, Document.Announced, fieldNames, Datum.plain, Datum.content?, Text.content]

end Fields

theorem ofDocument_shownAs (h : e.Shows data metadata) :
    ofDocument (e.shownAs data metadata) = .ok e := by
  have topic := Document.topic_id e.topic
  have sequence : Document.sequence data = .ok e.data := by
    rw [Document.sequence, Coerce.sequence, h.data]
    rfl
  have entries := MetadataEntries.read_of_shows h.metadata h.distinct
  have timestamp := Document.natural_cast (Nat.zero_le e.timestamp)
  have version := Document.natural_cast h.version
  obtain ⟨f₁, f₂, f₃, f₄, f₅, f₆, f₇⟩ := get?_documentOf (.plain e.topic.id) e.emitter e.actor data
    (.map metadata) (.number e.timestamp) (.number e.version)
  unfold ofDocument shownAs Document.required Document.optional
  rw [f₁, f₂, f₃, f₄, f₅, f₆, f₇,
    Document.closed_eq (announced_documentOf _ _ _ _ _ _ _)]
  dsimp only
  rw [topic, sequence, entries, timestamp, version]
  rfl

/-- A document that holds an envelope is accepted, and a version beyond the consumer's own is
reported. -/
theorem accept_of_document {doc : Document} {version : Int}
    (numbered : Datum.get? doc versionField = some (.number version)) (h : ofDocument doc = .ok e)
    (current : Int) (log : Log) :
    accept current doc log
      = (.ok e, log ++ if current < version then
          [Version.warning current (.number version) (shown doc topicField)] else []) := by
  unfold accept
  rw [h, numbered]
  exact Reported.bind_ok (Version.check_number current version _ log) _

theorem accept_shownAs (h : e.Shows data metadata) (current : Int) (log : Log) :
    accept current (e.shownAs data metadata) log
      = (.ok e, log ++ if current < e.version then
          [Version.warning current (.number e.version) (.topic e.topic)] else []) := by
  obtain ⟨topic, _, _, _, _, _, version⟩ := get?_documentOf (.plain e.topic.id) e.emitter e.actor
    data (.map metadata) (.number e.timestamp) (.number e.version)
  have accepted := accept_of_document version (ofDocument_shownAs h) current log
  unfold shown at accepted
  rw [topic] at accepted
  exact accepted

end Envelope

end EventEnvelope
