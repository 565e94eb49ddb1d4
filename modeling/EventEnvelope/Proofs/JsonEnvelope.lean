import EventEnvelope.Proofs.BinaryEnvelope
import EventEnvelope.Proofs.Json.Image

/-! Envelopes in JSON form. Main statement: what the builder returns has a JSON form, and a consumer
of it gets the same envelope, whether it asks for JSON or leaves it to the first byte to tell,
unless a text of it holds a leading surrogate right before a trailing one. Such a pair is read as
the one character that it spells. -/

namespace EventEnvelope

/-- Every object starts with the byte that marks JSON. -/
theorem Json.mark_of_render (ms : List (CodeText × Json)) :
    ∃ bs, Utf8.encode (render (.object ms)) = Envelope.jsonMark :: bs := by
  refine ⟨(writeMembers ms ++ ['\x7d']).flatMap String.utf8EncodeChar, ?_⟩
  have brace : String.utf8EncodeChar '\x7b' = [Envelope.jsonMark] := by decide
  unfold Utf8.encode render
  rw [String.toByteArray_ofList, List.utf8Encode]
  simp [write, brace]

/-- No metadata key can be taken for a tag. -/
theorem MetadataKey.id_ne_tag (k : MetadataKey) :
    k.id ≠ Json.addressTag ∧ k.id ≠ Json.symbolTag := by
  cases k <;> decide +kernel

namespace Envelope

variable {e : Envelope}

/-- The metadata of an envelope as a consumer of the JSON form finds it. -/
def renderedMetadata (e : Envelope) : List (Datum × Datum) :=
  e.metadata.map fun x => (.plain x.1.id, .list x.2)

/-- An envelope whose identities and values come back from their JSON form as they were. -/
abbrev IsKept (e : Envelope) : Prop := e.Holds Json.Keeps

namespace IsKept

theorem shows_rendered (kept : e.IsKept) : e.Shows (.list e.data) e.renderedMetadata where
  data := rfl
  metadata := by
    rw [renderedMetadata, List.forall₂_map_left_iff, List.forall₂_same]
    exact fun _ _ => ⟨rfl, rfl⟩
  distinct := kept.distinct
  version := kept.version

theorem rendersEntries_metadata {m : MetadataEntries} (h : ∀ x ∈ m, ∀ d ∈ x.2, Json.Keeps d) :
    ∃ ms, Json.RendersEntries (m.map fun x => (Datum.text (.key x.1), Datum.tuple x.2)) ms
      (m.map fun x => (.plain x.1.id, .list x.2)) := by
  induction m with
  | nil => exact ⟨[], Json.rendersEntries_nil⟩
  | cons x m ih =>
    obtain ⟨js, values⟩ := Json.rendersAll_keeps (h x (by simp))
    obtain ⟨ms, rest⟩ := ih fun y hy => h y (by simp [hy])
    exact ⟨_, rest.cons rfl (CodeText.isUnpaired_proper x.1.id) (.tuple values)⟩

theorem renders_metadata (kept : e.IsKept) :
    ∃ j, Json.Renders (metadataMap e.metadata) j (.map e.renderedMetadata) := by
  obtain ⟨ms, entries⟩ := rendersEntries_metadata kept.metadata
  refine ⟨_, Json.Renders.map entries ⟨?_, ?_⟩ (Json.untag_eq_map ?_)⟩
  · intro x hx
    obtain ⟨_, _, rfl⟩ := List.mem_map.mp hx
    rfl
  · rw [renderedMetadata, List.map_map]
    exact distinct_ids kept.distinct
  · intro x hx
    obtain ⟨y, _, rfl⟩ := List.mem_map.mp hx
    have tags := y.1.id_ne_tag
    exact ⟨fun h => tags.1 (CodeText.proper.inj (Option.some.inj h)),
      fun h => tags.2 (CodeText.proper.inj (Option.some.inj h))⟩

theorem renders (kept : e.IsKept) :
    ∃ ms, Json.Renders (.map e.toDocument) (.object ms)
      (.map (e.shownAs (.list e.data) e.renderedMetadata)) := by
  obtain ⟨emitter, emitterForm⟩ := kept.emitter
  obtain ⟨actor, actorForm⟩ := kept.actor
  obtain ⟨data, dataForm⟩ := Json.rendersAll_keeps kept.data
  obtain ⟨metadata, metadataForm⟩ := kept.renders_metadata
  have topic := Json.renders_plain (d := .topic e.topic) rfl (CodeText.isUnpaired_proper e.topic.id)
  have fields := ((((((Json.rendersEntries_nil.named versionField
    (Json.renders_number e.version)).named timestampField
    (Json.renders_number e.timestamp)).named metadataField metadataForm).named dataField
    (.tuple dataForm)).named actorField actorForm).named emitterField emitterForm).named topicField
    topic
  have names (x : Datum × Datum) (hx : x ∈ e.shownAs (.list e.data) e.renderedMetadata) :
      x.1.content? ∈ fieldNames.map fun s => some (CodeText.proper s) := by
    have listed := List.mem_map_of_mem (f := fun x : Datum × Datum => x.1.content?) hx
    exact listed
  refine ⟨_, Json.Renders.map fields ⟨?_, ?_⟩ (Json.untag_eq_map ?_)⟩
  · intro x hx
    obtain ⟨s, _, named⟩ := List.mem_map.mp (names x hx)
    rw [← named]
    rfl
  · change (fieldNames.map fun s => some (CodeText.proper s)).Nodup
    decide +kernel
  · have untagged : ∀ c ∈ fieldNames.map fun s => some (CodeText.proper s),
        c ≠ some (.proper Json.addressTag) ∧ c ≠ some (.proper Json.symbolTag) := by
      decide +kernel
    exact fun x hx => untagged _ (names x hx)

end IsKept

/-- The identities and values of an envelope, those under metadata keys included. -/
def values (e : Envelope) : List Datum :=
  e.emitter :: e.actor :: (e.data ++ e.metadata.flatMap Prod.snd)

theorem forall_mem_values {P : Datum → Prop} : (∀ d ∈ e.values, P d) ↔
    P e.emitter ∧ P e.actor ∧ (∀ d ∈ e.data, P d) ∧ ∀ x ∈ e.metadata, ∀ d ∈ x.2, P d := by
  simp only [values, List.forall_mem_cons, List.forall_mem_append, List.forall_mem_flatMap]

/-- No text of the envelope holds a leading surrogate right before a trailing one. -/
def isUnpaired (e : Envelope) : Bool := e.values.all fun d => d.content?.all CodeText.isUnpaired

theorem IsTyped.kept (typed : e.IsTyped) (unpaired : e.isUnpaired = true) : e.IsKept := by
  obtain ⟨emitter, actor, data, metadata⟩ := forall_mem_values.mp (List.all_eq_true.mp unpaired)
  have settled := typed.settled
  constructor
  · exact Json.keeps_settled settled.emitter emitter
  · exact Json.keeps_settled settled.actor actor
  · exact fun d hd => Json.keeps_settled (settled.data d hd) (data d hd)
  · exact fun x hx d hd => Json.keeps_settled (settled.metadata x hx d hd) (metadata x hx d hd)
  · exact settled.distinct
  · exact settled.version

theorem decodeJson_of_tree {s : String} {j : Json} {doc : Document}
    (tree : Json.parse? s = some j) (held : j.toDatum = .map doc) (current : Int) :
    decodeJson current (Utf8.encode s) = accept current doc := by
  unfold decodeJson
  rw [Utf8.decode?_encode]
  dsimp only
  rw [tree]
  dsimp only
  rw [held]

theorem decodeJson_of_renders {doc doc' : Document} {j : Json}
    (rendered : Json.Renders (.map doc) j (.map doc')) (current : Int) :
    decodeJson current (Utf8.encode j.render) = accept current doc' :=
  decodeJson_of_tree (Json.parse?_render rendered.legible) rendered.value current

theorem IsKept.decodeJson_ok (kept : e.IsKept) (current : Int) :
    ∃ bs, e.encodeJson = .ok bs ∧ decode current bs = decodeJson current bs ∧
      (decodeJson current bs).outcome = (.ok e, if current < e.version then
        [Version.warning current (.number e.version) (.topic e.topic)] else []) := by
  obtain ⟨ms, rendered⟩ := kept.renders
  refine ⟨Utf8.encode (Json.render (.object ms)), ?_, ?_, ?_⟩
  · rw [encodeJson, renderJson, Json.ofDatum, rendered.tree]
    rfl
  · obtain ⟨bs, marked⟩ := Json.mark_of_render ms
    rw [marked, decode, if_pos rfl]
  · rw [decodeJson_of_renders rendered]
    exact accept_shownAs kept.shows_rendered current []

/-- An envelope that the builder returned, without pairs of surrogates, has a JSON form. A consumer
of it gets the same envelope, whether or not it knows that the form is JSON, and a version beyond
its own is reported once. -/
theorem decodeJson_encodeJson {topic actor data metadata timestamp : Datum} {s s' : Surroundings}
    (built : Build.envelope topic actor data metadata timestamp s = (.ok e, s'))
    (unpaired : e.isUnpaired = true) (current : Int) :
    ∃ bs, e.encodeJson = .ok bs ∧ decode current bs = decodeJson current bs ∧
      (decodeJson current bs).outcome = (.ok e, if current < e.version then
        [Version.warning current (.number e.version) (.topic e.topic)] else []) :=
  ((Build.envelope_isTyped built).kept unpaired).decodeJson_ok current

theorem decodeJson_encodeJson_transferred : ∃ bs, transferred.encodeJson = .ok bs ∧
    decode 1 bs = decodeJson 1 bs ∧ (decodeJson 1 bs).outcome
      = (.ok transferred, [Version.warning 1 (.number 2) (.topic .transfer)]) :=
  decodeJson_encodeJson Build.envelope_transferred (by decide +kernel) 1

/-- A vote without data, told by a component whose identity is of this text. -/
def toldBy (identity : CodeText) : Envelope where
  topic := .vote
  emitter := .address ⟨identity⟩
  actor := .null
  data := []
  metadata := []
  timestamp := 1700000000
  version := 2

def toldByMembers (identity : CodeText) : List (CodeText × Json) :=
  [(topicField, .text "vote"), (emitterField, .object [(Json.addressTag, .text identity)]),
    (actorField, .null), (dataField, .array []), (metadataField, .object []),
    (timestampField, .integer 1700000000), (versionField, .integer 2)]

theorem renderJson_toldBy (identity : CodeText) :
    (toldBy identity).renderJson = .ok (Json.render (.object (toldByMembers identity))) := by
  have tree : Json.ofImage? (Json.image (.map (toldBy identity).toDocument))
      = some (.object (toldByMembers identity)) := by
    simp [toldBy, toDocument, documentOf, metadataMap, Json.image, Json.imageEntries, Json.images,
      Json.tagged, Datum.ofEntries, Datum.insert, Datum.plain, Datum.display, Text.shown,
      Text.content, Datum.address, Datum.topic, Json.ofImage?, Json.ofImages?, Json.ofImageEntries?,
      Datum.content?, topicField, emitterField, actorField, dataField, metadataField,
      timestampField, versionField, toldByMembers, Topic.id]
  rw [renderJson, Json.ofDatum, tree]
  rfl

/-- Two surrogates that make up a pair: the identity comes back as one character. -/
theorem decodeJson_encodeJson_paired :
    let pair : CodeText := .broken "" ⟨0x03d⟩ (.broken "" ⟨0x600⟩ "")
    (Build.envelope (.topic .vote) .null (.list []) (.map []) .null
        { Surroundings.ledger with identity := .plain pair }).1 = .ok (toldBy pair) ∧
      ∃ bs, (toldBy pair).encodeJson = .ok bs ∧
        (decodeJson 2 bs).outcome = (.ok (toldBy "😀"), []) ∧ toldBy "😀" ≠ toldBy pair := by
  intro pair
  -- The pair and the character are written alike.
  have alike : Json.render (.object (toldByMembers pair))
      = Json.render (.object (toldByMembers "😀")) := by decide +kernel
  have built : Build.envelope (.topic .vote) .null (.list []) (.map []) .null
      { Surroundings.ledger with identity := .plain "😀" } = (.ok (toldBy "😀"), _) := rfl
  have kept : (toldBy "😀").IsKept := (Build.envelope_isTyped built).kept (by decide +kernel)
  obtain ⟨bs, encoded, _, decoded⟩ := kept.decodeJson_ok 2
  refine ⟨rfl, bs, ?_, decoded, ?_⟩
  · rw [← encoded, encodeJson, encodeJson, renderJson_toldBy, renderJson_toldBy, alike]
  · intro same
    have emitters := congrArg Envelope.emitter same
    simp [toldBy, Datum.address, pair] at emitters

end Envelope

end EventEnvelope
