import EventEnvelope.Proofs.EnvelopeFraming
import Mathlib.Data.List.TakeWhile

/-! How a consumer tells the two forms of an envelope apart. It goes by the first byte, while a JSON
text may have blanks in front of its object. Main statement: bytes that are an envelope in JSON form
are blanks and the mark of an object; where there are no blanks the consumer that goes by the first
byte gets the same envelope and the same report, and where there are some it refuses the bytes. -/

namespace EventEnvelope

theorem Utf8.encode_eq_flatMap (s : String) :
    encode s = s.toList.flatMap String.utf8EncodeChar := by
  have listed : s = String.ofList s.toList := String.ofList_toList.symm
  rw [encode, listed, String.toByteArray_ofList, List.utf8Encode]
  simp

namespace Json

section Opening

variable {cs rest : List Char} {j : Json} {ms : List (CodeText × Json)}

theorem unsigned_ne_object {negative : Bool} (h : unsigned negative cs = some (j, rest)) :
    j ≠ object ms := by
  unfold unsigned at h
  split at h
  · cases h
  · dsimp only at h
    split at h
    · cases h
      simp
    · split at h <;> cases h <;> simp

theorem number_ne_object (h : number cs = some (j, rest)) : j ≠ object ms := by
  unfold number at h
  split at h <;> exact unsigned_ne_object h

/-- No container is read as a scalar. -/
theorem scalar_ne_object (h : scalar cs = some (j, rest)) : j ≠ object ms := by
  unfold scalar at h
  split at h
  case h_1 =>
    obtain ⟨found, _, spelled⟩ := Option.map_eq_some_iff.mp h
    cases spelled
    simp
  case h_8 => exact number_ne_object h
  all_goals
    cases h
    simp

theorem brace_of_value {fuel : Nat} (h : value fuel cs = some (object ms, rest)) :
    ∃ r, cs = '\x7b' :: r := by
  unfold value at h
  split at h
  · cases h
  · split at h
    · cases h
    · obtain ⟨found, _, spelled⟩ := Option.map_eq_some_iff.mp h
      cases spelled
  · exact ⟨_, rfl⟩
  · exact absurd rfl (scalar_ne_object h)

/-- A text that spells an object opens with blanks, if with anything, and then the object. -/
theorem opening_of_parse? {s : String} (h : parse? s = some (object ms)) :
    ∃ blanks r, s.toList = blanks ++ '\x7b' :: r ∧ ∀ c ∈ blanks, isSpace c = true := by
  unfold parse? at h
  dsimp only at h
  split at h
  · next j rest read =>
    split at h
    · cases h
      obtain ⟨r, opened⟩ := brace_of_value read
      refine ⟨s.toList.takeWhile isSpace, r, ?_, ?_⟩
      · rw [← opened, skip, List.takeWhile_append_dropWhile]
      · exact fun c hc => List.mem_takeWhile_imp hc
    · cases h
  · cases h

theorem object_of_toDatum {doc : Document} (h : toDatum j = .map doc) : ∃ ms, j = object ms := by
  cases j with
  | object ms => exact ⟨ms, rfl⟩
  | _ => cases h

end Opening

/-- The bytes of blanks. -/
def isBlankByte (b : UInt8) : Bool := b = 0x20 || b = 0x09 || b = 0x0a || b = 0x0d

theorem utf8_of_isSpace {c : Char} (h : isSpace c = true) :
    ∃ b, String.utf8EncodeChar c = [b] ∧ isBlankByte b = true := by
  simp only [isSpace, Bool.or_eq_true, decide_eq_true_eq] at h
  rcases h with ((rfl | rfl) | rfl) | rfl
  · exact ⟨0x20, by decide, by decide⟩
  · exact ⟨0x09, by decide, by decide⟩
  · exact ⟨0x0a, by decide, by decide⟩
  · exact ⟨0x0d, by decide, by decide⟩

theorem isBlankByte_of_blanks {blanks : List Char} (h : ∀ c ∈ blanks, isSpace c = true) :
    ∀ b ∈ blanks.flatMap String.utf8EncodeChar, isBlankByte b = true := by
  intro b hb
  obtain ⟨c, hc, inside⟩ := List.mem_flatMap.mp hb
  obtain ⟨b', encoded, blank⟩ := utf8_of_isSpace (h c hc)
  rw [encoded] at inside
  exact List.mem_singleton.mp inside ▸ blank

end Json

namespace Wire

/-- A blank alone is a number in binary form, and nothing may follow a number. -/
theorem decode_blank {b : UInt8} (blank : Json.isBlankByte b = true) {more : Bytes}
    (added : more ≠ []) : decode (b :: more) = .error .trailingBytes := by
  have alone : ∃ d, decode [b] = .ok d := by
    simp only [Json.isBlankByte, Bool.or_eq_true, decide_eq_true_eq] at blank
    rcases blank with ((rfl | rfl) | rfl) | rfl <;> exact ⟨_, rfl⟩
  obtain ⟨d, read⟩ := alone
  exact decode_extended read added

end Wire

namespace Envelope

variable {e : Envelope} {current : Int} {bs : Bytes}

/-- Bytes that are taken for an envelope in JSON form spell the document of one. -/
theorem document_of_decodeJson {log log' : Log} (h : decodeJson current bs log = (.ok e, log')) :
    ∃ s j doc, Utf8.decode? bs = some s ∧ Json.parse? s = some j ∧ j.toDatum = .map doc ∧
      accept current doc log = (.ok e, log') := by
  unfold decodeJson at h
  cases text : Utf8.decode? bs with
  | none => rw [text] at h; cases h
  | some s =>
    rw [text] at h
    dsimp only at h
    cases tree : Json.parse? s with
    | none => rw [tree] at h; cases h
    | some j =>
      rw [tree] at h
      dsimp only at h
      cases held : j.toDatum with
      | map doc =>
        rw [held] at h
        exact ⟨s, j, doc, rfl, tree, held, h⟩
      | _ => rw [held] at h; cases h

/-- An envelope in JSON form is blanks, the mark of an object and what follows it. -/
theorem opening_of_decodeJson {log log' : Log} (h : decodeJson current bs log = (.ok e, log')) :
    ∃ blanks rest, bs = blanks ++ jsonMark :: rest ∧ ∀ b ∈ blanks, Json.isBlankByte b = true := by
  obtain ⟨s, j, doc, text, tree, held, _⟩ := document_of_decodeJson h
  obtain ⟨ms, rfl⟩ := Json.object_of_toDatum held
  obtain ⟨blanks, r, opened, spaces⟩ := Json.opening_of_parse? tree
  have brace : String.utf8EncodeChar '\x7b' = [jsonMark] := by decide
  refine ⟨blanks.flatMap String.utf8EncodeChar, r.flatMap String.utf8EncodeChar, ?_,
    Json.isBlankByte_of_blanks spaces⟩
  rw [Utf8.eq_encode_of_decode? text, Utf8.encode_eq_flatMap, opened]
  simp [brace]

/-- Whatever bytes are taken for an envelope in JSON form: they open with the mark of an object, and
then a consumer that goes by the first byte gets the same envelope with the same report, or with
blanks before it, and then such a consumer refuses them. -/
theorem decode_of_decodeJson {log : Log}
    (accepted : (decodeJson current bs).outcome = (.ok e, log)) :
    ∃ blanks rest, bs = blanks ++ jsonMark :: rest ∧ (∀ b ∈ blanks, Json.isBlankByte b = true) ∧
      (blanks = [] → (decode current bs).outcome = (.ok e, log)) ∧
      (blanks ≠ [] → Refuses current bs (.undecodableEvent .trailingBytes)) := by
  obtain ⟨blanks, rest, rfl, spaces⟩ := opening_of_decodeJson accepted
  refine ⟨blanks, rest, rfl, spaces, ?_, ?_⟩
  · rintro rfl
    rw [List.nil_append] at accepted ⊢
    rw [decode, if_pos rfl]
    exact accepted
  · intro present
    obtain ⟨b, blanks, rfl⟩ := List.exists_cons_of_ne_nil present
    have blank : Json.isBlankByte b = true := spaces b (by simp)
    have first : b ≠ jsonMark := by
      rintro rfl
      exact absurd blank (by decide)
    exact refuses_of_decode current first (Wire.decode_blank blank (by simp))

/-- The members of an object that holds nothing but what an envelope must have. -/
def sparseMembers : List (CodeText × Json) :=
  [(topicField, .text "burn"), (emitterField, .text "ledger"), (timestampField, .integer 7),
    (versionField, .integer 1)]

/-- What a consumer makes of that object. -/
def sparse : Envelope where
  topic := .burn
  emitter := .plain "ledger"
  actor := .null
  data := []
  metadata := []
  timestamp := 7
  version := 1

/-- The object behind as many spaces. -/
def indented (spaces : Nat) : Bytes :=
  Utf8.encode (String.ofList (List.replicate spaces ' ' ++ Json.write (.object sparseMembers)))

theorem decodeJson_indented (spaces : Nat) :
    (decodeJson 1 (indented spaces)).outcome = (.ok sparse, []) := by
  have legible : (Json.object sparseMembers).isLegible = true := rfl
  have tree := Json.parse?_blanks legible (List.replicate spaces ' ')
    (fun c hc => (List.mem_replicate.mp hc).2 ▸ rfl)
  have held : (Json.object sparseMembers).toDatum
      = .map [(.plain topicField, .plain "burn"), (.plain emitterField, .plain "ledger"),
        (.plain timestampField, .number 7), (.plain versionField, .number 1)] := by
    have keys : Datum.DistinctTexts (Json.toEntries sparseMembers) := ⟨by simp [Json.toEntries,
      sparseMembers, Datum.plain, Datum.content?], by decide +kernel⟩
    rw [Json.toDatum, keys.ofEntries_eq]
    rfl
  rw [indented, decodeJson_of_tree tree held]
  exact @accept_of_document _ _ 1 rfl rfl 1 []

theorem indented_one : indented 1 = 0x20 :: indented 0 := by
  have space : String.utf8EncodeChar ' ' = [0x20] := by decide
  unfold indented
  rw [Utf8.encode_eq_flatMap, Utf8.encode_eq_flatMap, String.toList_ofList, String.toList_ofList]
  simp [space]

theorem indented_zero : ∃ rest, indented 0 = jsonMark :: rest :=
  Json.mark_of_render sparseMembers

/-- With one space in front of it an envelope in JSON form is lost on the consumer that goes by the
first byte. -/
theorem decode_indented : (decodeJson 1 (indented 1)).outcome = (.ok sparse, []) ∧
    (decode 1 (indented 1)).outcome = (.error (.undecodableEvent .trailingBytes), []) := by
  refine ⟨decodeJson_indented 1, ?_⟩
  obtain ⟨rest, opened⟩ := indented_zero
  rw [indented_one]
  exact (refuses_of_decode 1 (by decide) (Wire.decode_blank rfl (by simp [opened]))).1

theorem decode_unindented : (decodeJson 1 (indented 0)).outcome = (.ok sparse, []) ∧
    (decode 1 (indented 0)).outcome = (.ok sparse, []) := by
  have accepted := decodeJson_indented 0
  refine ⟨accepted, ?_⟩
  obtain ⟨blanks, rest, spelled, spaces, plain, _⟩ := decode_of_decodeJson accepted
  apply plain
  obtain ⟨rest', opened⟩ := indented_zero
  rw [opened] at spelled
  cases blanks with
  | nil => rfl
  | cons b blanks =>
    cases spelled
    exact absurd (spaces jsonMark (by simp)) (by decide)

end Envelope

end EventEnvelope
