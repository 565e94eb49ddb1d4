import EventEnvelope.Proofs.BinaryEnvelope
import EventEnvelope.Proofs.Wire.Found

/-! Envelopes of foreign origin. A document may hold texts for numbers, byte strings for texts and
keys that merge; what is read of it is settled after one pass. Main statement: whatever binary
message a consumer takes for an envelope, the envelope is read back from its own bytes. -/

namespace EventEnvelope

namespace Document

variable {α : Type} {doc : Document} {name : String} {read : Datum → Checked α} {a absent : α}

theorem required_eq_ok (h : doc.required name read = .ok a) :
    ∃ d, Datum.get? doc name = some d ∧ read d = .ok a := by
  unfold required at h
  split at h
  · next d found => exact ⟨d, found, Checked.under_eq_ok h⟩
  · contradiction

theorem optional_eq_ok (h : doc.optional name absent read = .ok a) :
    a = absent ∨ ∃ d, Datum.get? doc name = some d ∧ read d = .ok a := by
  unfold optional at h
  split at h
  · next d found => exact .inr ⟨d, found, Checked.under_eq_ok h⟩
  · cases h
    exact .inl rfl

/-- What is read as a sequence yields its elements one by one. -/
theorem sequence_eq_ok {d : Datum} {xs : List Datum} (h : sequence d = .ok xs) :
    d.elements? = some xs := by
  have listed : d.sequence? = some xs := by
    unfold sequence Coerce.sequence at h
    cases parts : d.sequence? with
    | none => rw [parts] at h; cases h
    | some ys => rw [parts] at h; cases h; rfl
  unfold Datum.sequence? at listed
  split at listed
  all_goals first | contradiction | exact listed

theorem natural_eq_ok {least n : Nat} {d : Datum} (h : natural least d = .ok n) : least ≤ n := by
  unfold natural at h
  split at h
  · cases h
  · split at h
    · cases h
    · cases h
      omega

end Document

namespace MetadataEntries

theorem values_of_readAll {es : List (Datum × Datum)} {ms : List (MetadataKey × List Datum)}
    (h : readAll es = .ok ms) : ∀ x ∈ ms, ∃ e ∈ es, e.2.elements? = some x.2 := by
  induction es generalizing ms with
  | nil => cases h; simp
  | cons e es ih =>
    obtain ⟨first, rest, read, others, rfl⟩ := Checked.both_eq_ok h
    obtain ⟨k, vs, _, values, rfl⟩ := Checked.both_eq_ok (Checked.under_eq_ok read)
    intro x hx
    rcases List.mem_cons.mp hx with rfl | hx
    · exact ⟨e, by simp, Document.sequence_eq_ok values⟩
    · obtain ⟨e', he', listed⟩ := ih others x hx
      exact ⟨e', by simp [he'], listed⟩

theorem distinct_insert {m : MetadataEntries} (distinct : (m.map Prod.fst).Nodup) (k : MetadataKey)
    (vs : List Datum) : ((insert m k vs).map Prod.fst).Nodup := by
  unfold insert
  split
  · rw [map_fst_update fun _ same => same.symm]
    exact distinct
  · next apart =>
    refine nodup_map_fst_concat distinct fun e he equal => apart ?_
    exact List.any_eq_true.mpr ⟨e, he, decide_eq_true equal⟩

theorem mem_insert {m : MetadataEntries} {k : MetadataKey} {vs : List Datum}
    {x : MetadataKey × List Datum} (h : x ∈ insert m k vs) : x = (k, vs) ∨ x ∈ m := by
  unfold insert at h
  split at h
  · obtain ⟨e, he, rfl⟩ := List.mem_map.mp h
    split
    · exact .inl rfl
    · exact .inr he
  · rcases List.mem_append.mp h with h | h
    · exact .inr h
    · exact .inl (List.mem_singleton.mp h)

/-- Merging entries leaves each key once, and no values but those of the entries. -/
theorem foldl_insert_merges (ms : MetadataEntries) {m : MetadataEntries}
    (distinct : (m.map Prod.fst).Nodup) :
    let merged := ms.foldl (fun m e => insert m e.1 e.2) m
    (merged.map Prod.fst).Nodup ∧ ∀ x ∈ merged, x ∈ m ∨ x ∈ ms := by
  induction ms generalizing m with
  | nil => exact ⟨distinct, fun x hx => .inl hx⟩
  | cons e ms ih =>
    obtain ⟨keys, values⟩ := ih (distinct_insert distinct e.1 e.2)
    refine ⟨keys, fun x hx => ?_⟩
    rcases values x hx with hx | hx
    · rcases mem_insert hx with rfl | hx
      · exact .inr (by simp)
      · exact .inl hx
    · exact .inr (by simp [hx])

/-- Metadata that was read has each key once, with the elements of one value under it. -/
theorem read_eq_ok {d : Datum} {m : MetadataEntries} (h : read d = .ok m) :
    (m.map Prod.fst).Nodup ∧
      ∃ es, d = .map es ∧ ∀ x ∈ m, ∃ e ∈ es, e.2.elements? = some x.2 := by
  unfold read at h
  split at h
  · next es =>
    cases entries : readAll es with
    | error faults => rw [entries] at h; cases h
    | ok ms =>
      rw [entries] at h
      cases h
      obtain ⟨keys, values⟩ := foldl_insert_merges ms (m := []) (by simp)
      refine ⟨keys, es, rfl, fun x hx => ?_⟩
      rcases values x hx with hx | hx
      · simp at hx
      · exact values_of_readAll entries x hx
  · cases h

end MetadataEntries

namespace Envelope

variable {e : Envelope}

/-- The fields of a document, each read for its part of the envelope. -/
structure IsReadFrom (e : Envelope) (doc : Document) : Prop where
  topic : doc.required topicField Document.topic = .ok e.topic
  emitter : doc.required emitterField Document.anything = .ok e.emitter
  actor : doc.optional actorField .null Document.anything = .ok e.actor
  data : doc.optional dataField [] Document.sequence = .ok e.data
  metadata : doc.optional metadataField [] MetadataEntries.read = .ok e.metadata
  timestamp : doc.required timestampField (Document.natural 0) = .ok e.timestamp
  version : doc.required versionField (Document.natural 1) = .ok e.version

theorem isReadFrom_of_document {doc : Document} (h : ofDocument doc = .ok e) :
    e.IsReadFrom doc := by
  obtain ⟨f₇, version, read₇, seventh, rfl⟩ := Checked.both_eq_ok (Document.closed_eq_ok h).1
  obtain ⟨f₆, timestamp, read₆, sixth, rfl⟩ := Checked.both_eq_ok read₇
  obtain ⟨f₅, metadata, read₅, fifth, rfl⟩ := Checked.both_eq_ok read₆
  obtain ⟨f₄, data, read₄, fourth, rfl⟩ := Checked.both_eq_ok read₅
  obtain ⟨f₃, actor, read₃, third, rfl⟩ := Checked.both_eq_ok read₄
  obtain ⟨f₂, emitter, read₂, second, rfl⟩ := Checked.both_eq_ok read₃
  obtain ⟨f₁, topic, made, first, rfl⟩ := Checked.both_eq_ok read₂
  cases made
  exact ⟨first, second, third, fourth, fifth, sixth, seventh⟩

theorem IsReadFrom.distinct_keys {doc : Document} (h : e.IsReadFrom doc) :
    (e.metadata.map Prod.fst).Nodup := by
  rcases Document.optional_eq_ok h.metadata with absent | ⟨d, named, read⟩
  · simp [absent]
  · exact (MetadataEntries.read_eq_ok read).1

theorem IsReadFrom.one_le_version {doc : Document} (h : e.IsReadFrom doc) : 1 ≤ e.version := by
  obtain ⟨d, named, read⟩ := Document.required_eq_ok h.version
  exact Document.natural_eq_ok read

/-- A property that passes from a value to its parts, and that nothing has. -/
structure IsInherited (P : Datum → Prop) : Prop where
  null : P .null
  value : ∀ {es : List (Datum × Datum)}, P (.map es) → ∀ x ∈ es, P x.2
  elements : ∀ {d : Datum} {xs : List Datum}, P d → d.elements? = some xs → ∀ x ∈ xs, P x

/-- What holds of a document holds of the parts of the envelope that is read from it. -/
theorem IsReadFrom.holds {P : Datum → Prop} {doc : Document} (h : e.IsReadFrom doc)
    (inherited : IsInherited P) (whole : P (.map doc)) : e.Holds P := by
  have value {name : String} {d : Datum} (named : Datum.get? doc name = some d) : P d := by
    obtain ⟨x, hx, rfl⟩ := Datum.mem_of_get? named
    exact inherited.value whole x hx
  constructor
  · obtain ⟨d, named, read⟩ := Document.required_eq_ok h.emitter
    cases read
    exact value named
  · rcases Document.optional_eq_ok h.actor with absent | ⟨d, named, read⟩
    · rw [absent]
      exact inherited.null
    · cases read
      exact value named
  · rcases Document.optional_eq_ok h.data with absent | ⟨d, named, read⟩
    · simp [absent]
    · exact inherited.elements (value named) (Document.sequence_eq_ok read)
  · rcases Document.optional_eq_ok h.metadata with absent | ⟨d, named, read⟩
    · simp [absent]
    · obtain ⟨_, es, rfl, values⟩ := MetadataEntries.read_eq_ok read
      intro x hx
      obtain ⟨entry, inside, listed⟩ := values x hx
      exact inherited.elements (inherited.value (value named) entry inside) listed
  · exact h.distinct_keys
  · exact h.one_le_version

/-- An envelope made of what was found in a message. -/
abbrev IsFound (e : Envelope) : Prop := e.Holds Datum.IsFound

theorem isInherited_isFound : IsInherited Datum.IsFound where
  null := .whole rfl
  value found _ hx := found.value hx
  elements found listed := found.elements listed

theorem IsReadFrom.isFound {doc : Document} (h : e.IsReadFrom doc)
    (found : (Datum.map doc).IsFound) : e.IsFound :=
  h.holds isInherited_isFound found

/-- What was found and can be written is carried as it is. -/
theorem IsFound.steady (found : e.IsFound) {w : Wire}
    (tree : Wire.ofDatum (.map e.toDocument) = .ok w) : e.IsSteady := by
  have written := Wire.ofDatum_map_ok tree
  simp only [toDocument, documentOf, List.forall_mem_cons] at written
  obtain ⟨_, ⟨_, _, emitter⟩, ⟨_, _, actor⟩, ⟨_, _, data⟩, ⟨_, _, metadata⟩, _⟩ := written
  refine ⟨found.emitter.steady emitter, found.actor.steady actor, ?_, ?_, found.distinct,
    found.version⟩
  · intro d hd
    obtain ⟨w, part⟩ := Wire.ofDatum_tuple_ok data d hd
    exact (found.data d hd).steady part
  · intro x hx d hd
    obtain ⟨_, w, values⟩ := Wire.ofDatum_map_ok metadata _ (List.mem_map_of_mem hx)
    obtain ⟨w, part⟩ := Wire.ofDatum_tuple_ok values d hd
    exact (found.metadata x hx d hd).steady part

/-- A consumer of what was written gets the envelope with its values as they are received. -/
theorem decode_received {bs : Bytes}
    (read : Wire.decode bs = .ok (Datum.map e.toDocument).received)
    (distinct : (e.metadata.map Prod.fst).Nodup) (version : 1 ≤ e.version) (current : Int) :
    (decode current bs).outcome = (.ok e.received, if current < e.version then
      [Version.warning current (.number e.version) (.topic e.topic)] else []) := by
  rw [received_toDocument distinct] at read
  have keys : e.received.metadata.map Prod.fst = e.metadata.map Prod.fst := by
    rw [received, List.map_map]
    rfl
  have shows : e.received.Shows (.tuple e.received.data) e.received.receivedMetadata :=
    shows_received (keys.symm ▸ distinct) version
  rw [decode_of_map read]
  exact accept_shownAs shows current []

theorem IsSteady.decode_written (steady : e.IsSteady) {bs : Bytes} (written : e.encode = .ok bs)
    (current : Int) :
    (decode current bs).outcome = (.ok e, if current < e.version then
      [Version.warning current (.number e.version) (.topic e.topic)] else []) := by
  have found := Datum.decode_encode_received steady.isPortable written
  have read := decode_received found steady.distinct steady.version current
  rwa [steady.received_eq] at read

theorem ofDocument_of_accept {current : Int} {doc : Document} {log log' : Log}
    (h : accept current doc log = (.ok e, log')) : ofDocument doc = .ok e := by
  obtain ⟨_, mid, _, h⟩ := Reported.bind_eq_ok h
  cases read : ofDocument doc with
  | ok e' =>
    rw [read] at h
    cases h
    rfl
  | error faults =>
    rw [read] at h
    obtain ⟨_, _, _, thrown⟩ := Reported.bind_eq_ok h
    cases thrown

/-- A message that is not JSON was taken for an envelope because it holds the document of one. -/
theorem document_of_decode {current : Int} {bs : Bytes} {log log' : Log}
    (binary : bs.head? ≠ some jsonMark) (h : decode current bs log = (.ok e, log')) :
    ∃ doc, Wire.decode bs = .ok (.map doc) ∧ ofDocument doc = .ok e := by
  cases bs with
  | nil => cases h
  | cons b r =>
    have mark : b ≠ jsonMark := fun same => binary (congrArg some same)
    rw [decode, if_neg mark] at h
    cases read : Wire.decode (b :: r) with
    | error fault => rw [read] at h; cases h
    | ok d =>
      rw [read] at h
      cases d with
      | map doc => exact ⟨doc, rfl, ofDocument_of_accept h⟩
      | _ => cases h

/-- Whatever message in binary form a consumer takes for an envelope: once the envelope is written
again, every consumer reads the same envelope from the new bytes. -/
theorem decode_encode_decoded {current : Int} {bs bs' : Bytes} {log : Log}
    (binary : bs.head? ≠ some jsonMark) (accepted : (decode current bs).outcome = (.ok e, log))
    (written : e.encode = .ok bs') (consumer : Int) :
    (decode consumer bs').outcome = (.ok e, if consumer < e.version then
      [Version.warning consumer (.number e.version) (.topic e.topic)] else []) := by
  obtain ⟨doc, read, fields⟩ := document_of_decode binary accepted
  have found := (isReadFrom_of_document fields).isFound (Wire.found_decode read)
  obtain ⟨w, tree⟩ := Wire.ofDatum_of_encode written
  exact (found.steady tree).decode_written written consumer

/-- A message that no writer of this library produces: wide counts, byte strings for texts, a field
and a metadata key given twice, extensions for small integers and a text for a number. -/
def irregular : Bytes :=
  [0xde, 0, 7] ++
    0xd9 :: 10 :: Utf8.encode topicField ++ 0xc4 :: 8 :: Utf8.encode "transfer" ++
    0xa9 :: Utf8.encode timestampField ++ [3] ++
    0xb0 :: Utf8.encode emitterField ++ 0xc7 :: 6 :: 1 :: Utf8.encode "ledger" ++
    0xa4 :: Utf8.encode dataField ++ [0xdc, 0, 2, 0xd4, 3, 5, 0x81, 0xa1, 0x6b, 0xc0] ++
    0xa8 :: Utf8.encode metadataField ++ [0xdf, 0, 0, 0, 2] ++
      0xa6 :: Utf8.encode "amount" ++ [0x91, 1] ++
      0xc4 :: 6 :: Utf8.encode "amount" ++ [0x91, 2] ++
    0xa9 :: Utf8.encode timestampField ++ 0xa5 :: Utf8.encode "+07.0" ++
    0xa7 :: Utf8.encode versionField ++ [0xd4, 3, 1]

/-- What a consumer makes of that message. -/
def settled : Envelope where
  topic := .transfer
  emitter := .address ⟨"ledger"⟩
  actor := .null
  data := [.number 5, .map [(.plain "k", .null)]]
  metadata := [(.amount, [.number 2])]
  timestamp := 7
  version := 1

set_option maxRecDepth 2048 in
theorem decode_irregular : (decode 1 irregular).outcome = (.ok settled, []) := by
  let keyed : List (Datum × Datum) :=
    [(.plain "amount", .tuple [.number 1]), (.bytes (Utf8.encode "amount"), .tuple [.number 2])]
  have read : Wire.decode irregular = .ok (.map (Datum.ofEntries
      [(.plain topicField, .bytes (Utf8.encode "transfer")), (.plain timestampField, .number 3),
        (.plain emitterField, settled.emitter), (.plain dataField, .tuple settled.data),
        (.plain metadataField, .map (Datum.ofEntries keyed)),
        (.plain timestampField, .plain "+07.0"), (.plain versionField, .number 1)])) := by rfl
  -- a text and a byte string are two keys of a map, and one key of metadata
  have keys : Datum.ofEntries keyed = keyed := by
    simp [keyed, Datum.ofEntries, Datum.insert, Datum.plain, Datum.same, Datum.sameLeaf,
      Datum.quantity?]
  have fields : Datum.ofEntries
      [(.plain topicField, .bytes (Utf8.encode "transfer")), (.plain timestampField, .number 3),
        (.plain emitterField, settled.emitter), (.plain dataField, .tuple settled.data),
        (.plain metadataField, .map keyed), (.plain timestampField, .plain "+07.0"),
        (.plain versionField, .number 1)]
      = [(.plain topicField, .bytes (Utf8.encode "transfer")),
        (.plain timestampField, .plain "+07.0"), (.plain emitterField, settled.emitter),
        (.plain dataField, .tuple settled.data), (.plain metadataField, .map keyed),
        (.plain versionField, .number 1)] := by
    simp [Datum.ofEntries, Datum.insert, Datum.plain, Text.content, topicField, emitterField,
      dataField, metadataField, timestampField, versionField]
  rw [keys, fields] at read
  rw [decode_of_map read]
  exact @accept_of_document _ _ 1 rfl rfl 1 []

theorem decode_encode_irregular : (decode 1 irregular).outcome = (.ok settled, []) ∧
    ∃ bs, settled.encode = .ok bs ∧ (decode 1 bs).outcome = (.ok settled, []) := by
  refine ⟨decode_irregular, _, rfl, ?_⟩
  exact decode_encode_decoded (by decide) decode_irregular rfl 1

end Envelope

end EventEnvelope
