import EventEnvelope.Proofs.ForeignEnvelope
import EventEnvelope.Proofs.FormDetection
import EventEnvelope.Proofs.Json.Noted

/-! Envelopes in JSON form of foreign origin. Names may be repeated, tags may stand around any value
and numbers may be spelled as texts; what is read of it all is settled after one pass. Main
statement: an envelope that was read from a text without doubles has a JSON form, and is read back
from it. -/

namespace EventEnvelope

namespace Envelope

variable {e : Envelope}

theorem isInherited_isNoted : IsInherited Datum.IsNoted where
  null := .null
  value noted := noted.value
  elements noted listed := noted.elements listed

/-- What a tree stood for is kept by the JSON form, wherever it stands in an envelope. -/
theorem isKept_of_decodeJson {current : Int} {bs : Bytes} {s : String} {j : Json} {log log' : Log}
    (text : Utf8.decode? bs = some s) (tree : Json.parse? s = some j) (exact : j.isExact = true)
    (h : decodeJson current bs log = (.ok e, log')) : e.IsKept := by
  obtain ⟨s', j', doc, text', tree', held, fields⟩ := document_of_decodeJson h
  rw [text] at text'
  cases text'
  rw [tree] at tree'
  cases tree'
  have noted := Json.noted_toDatum j (Json.isLegible_of_parse? tree exact)
  rw [held] at noted
  have read := isReadFrom_of_document (ofDocument_of_accept fields)
  exact (read.holds isInherited_isNoted noted).imp Json.keeps_noted

/-- Whatever text without doubles a consumer takes for an envelope: the envelope has a JSON form,
and every consumer reads the same envelope from it, whether or not it knows that the form is JSON.
-/
theorem decodeJson_encodeJson_decoded {current : Int} {bs : Bytes} {s : String} {j : Json}
    {log : Log} (text : Utf8.decode? bs = some s) (tree : Json.parse? s = some j)
    (exact : j.isExact = true) (accepted : (decodeJson current bs).outcome = (.ok e, log))
    (consumer : Int) :
    ∃ bs', e.encodeJson = .ok bs' ∧ decode consumer bs' = decodeJson consumer bs' ∧
      (decodeJson consumer bs').outcome = (.ok e, if consumer < e.version then
        [Version.warning consumer (.number e.version) (.topic e.topic)] else []) := by
  have kept := isKept_of_decodeJson text tree exact accepted
  obtain ⟨ms, rendered⟩ := kept.renders
  refine ⟨Utf8.encode (Json.render (.object ms)), ?_, ?_, ?_⟩
  · rw [encodeJson, renderJson, Json.ofDatum, rendered.tree]
    rfl
  · obtain ⟨rest, marked⟩ := Json.mark_of_render ms
    rw [marked, decode, if_pos rfl]
  · rw [decodeJson_of_renders rendered]
    exact accept_shownAs kept.shows_rendered consumer []

/-- A text that no writer of this library produces: blanks and escapes, fields given twice, tags
around a tagged text and around a list, two tags in one object and a text for a number. -/
def strayText : String :=
  "\t\x7b\"event_type\" : \"b\\u0075rn\", \"timestamp\":3,"
    ++ "\"emitter_identity\":\x7b\"$addr\":\x7b\"$sym\":\"a\"\x7d\x7d,"
    ++ "\"data\":[\x7b\"$sym\":[5]\x7d,\x7b\"$sym\":1,\"$addr\":null,\"$sym\":2\x7d],"
    ++ "\"timestamp\":\"+07.0\",\"version\":1\x7d\r\n"

def strayMembers : List (CodeText × Json) :=
  [(topicField, .text "burn"), (timestampField, .integer 3),
    (emitterField, .object [(Json.addressTag, .object [(Json.symbolTag, .text "a")])]),
    (dataField, .array [.object [(Json.symbolTag, .array [.integer 5])],
      .object [(Json.symbolTag, .integer 1), (Json.addressTag, .null),
        (Json.symbolTag, .integer 2)]]),
    (timestampField, .text "+07.0"), (versionField, .integer 1)]

/-- What a consumer makes of that text. -/
def stray : Envelope where
  topic := .burn
  emitter := .address ⟨"a"⟩
  actor := .null
  data := [.symbol ⟨"[5]"⟩,
    .map [(.plain Json.symbolTag, .number 2), (.plain Json.addressTag, .null)]]
  metadata := []
  timestamp := 7
  version := 1

theorem parse?_strayText : Json.parse? strayText = some (.object strayMembers) := by
  have read : ((Json.parse? strayText).map fun j => (j.write, j.isLegible))
      = some ((Json.object strayMembers).write, true) := by decide +kernel
  obtain ⟨j, tree, same⟩ := Option.map_eq_some_iff.mp read
  obtain ⟨written, legible⟩ := Prod.ext_iff.mp same
  -- legible trees that are written alike are the same
  have back := Json.parse?_render legible
  rw [Json.render, show j.write = _ from written] at back
  rw [tree, ← back]
  exact Json.parse?_render rfl

theorem decodeJson_strayText :
    (decodeJson 1 (Utf8.encode strayText)).outcome = (.ok stray, []) := by
  have held : (Json.object strayMembers).toDatum = .map
      [(.plain topicField, .plain "burn"), (.plain timestampField, .plain "+07.0"),
        (.plain emitterField, stray.emitter), (.plain dataField, .list stray.data),
        (.plain versionField, .number 1)] := by
    have text : (Datum.text (.plain "a")).display = "a" := rfl
    have tagged : (Datum.symbol ⟨"a"⟩).display = "a" := rfl
    have listed : (Datum.list [.number 5]).display = "[5]" := rfl
    simp only [strayMembers, Json.toDatum, Json.toEntries, Json.toData]
    simp [Datum.ofEntries, Datum.insert, Json.untag, Datum.plain, Datum.content?, Text.content,
      Json.addressTag, Json.symbolTag, topicField, emitterField, dataField, timestampField,
      versionField, stray, text, tagged, listed]
  rw [decodeJson_of_tree parse?_strayText held]
  exact @accept_of_document _ _ 1 rfl rfl 1 []

theorem decodeJson_encodeJson_stray :
    (decodeJson 1 (Utf8.encode strayText)).outcome = (.ok stray, []) ∧
      ∃ bs, stray.encodeJson = .ok bs ∧ decode 0 bs = decodeJson 0 bs ∧
        (decodeJson 0 bs).outcome
          = (.ok stray, [Version.warning 0 (.number 1) (.topic .burn)]) := by
  refine ⟨decodeJson_strayText, ?_⟩
  exact decodeJson_encodeJson_decoded (Utf8.decode?_encode strayText) parse?_strayText rfl
    decodeJson_strayText 0

end Envelope

end EventEnvelope
