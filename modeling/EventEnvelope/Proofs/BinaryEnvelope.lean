import EventEnvelope.Proofs.Acceptance
import EventEnvelope.Proofs.Wire.Portable
import Mathlib.Data.List.Nodup
import Mathlib.Data.List.Perm.Subperm

/-! Envelopes in binary form. Main statement: what the builder returns is written unless it is too
large for the format, and a consumer of the bytes gets the same envelope, whatever schema version it
knows. -/

namespace EventEnvelope

namespace Wire

/-- Read as a tag, the byte that marks JSON is a small integer. -/
theorem head_mark (r : Bytes) : head (Envelope.jsonMark :: r) = .ok (.whole (.number 0x7b), r) :=
  head_cons _ r

/-- No map starts with the byte that marks JSON, and every map has a first byte. -/
theorem mark_of_decode_map {bs : Bytes} {es : List (Datum × Datum)}
    (h : decode bs = .ok (.map es)) : ∃ b r, bs = b :: r ∧ b ≠ Envelope.jsonMark := by
  cases bs with
  | nil => cases h
  | cons b r =>
    refine ⟨b, r, rfl, ?_⟩
    rintro rfl
    have number : read (Envelope.jsonMark :: r).length readerLevels (Envelope.jsonMark :: r)
        = .ok (.number 0x7b, r) := read_whole (head_mark r)
    unfold decode at h
    rw [number] at h
    cases r <;> cases h

theorem mark_of_encode_map {bs : Bytes} {es : List (Datum × Datum)}
    (h : encode (.map es) = .ok bs) : ∃ b r, bs = b :: r ∧ b ≠ Envelope.jsonMark := by
  unfold encode at h
  split at h
  · cases h
  · next w tree =>
    obtain ⟨ws, _, rfl⟩ := eq_ok_of_map tree
    obtain ⟨front, body, count, _, rfl⟩ := headed_eq_ok h
    cases bytes : front ++ body with
    | nil => exact absurd (List.append_eq_nil_iff.mp bytes).1 (CountTags.head_ne_nil count)
    | cons b r =>
      refine ⟨b, r, rfl, ?_⟩
      rintro rfl
      have announced := head_map count body
      rw [bytes, head_mark] at announced
      cases announced

end Wire

namespace Envelope

/-- The limits of the binary form as they bear on an envelope: texts have bytes, texts and integers
take less than `2 ^ 32` of them, and sequences have less than `2 ^ 32` elements. -/
structure WithinLimits (e : Envelope) : Prop where
  emitter : e.emitter.fits 0 = true
  actor : e.actor.fits 0 = true
  data : e.data.length < Wire.sizeLimit ∧ ∀ d ∈ e.data, d.fits 0 = true
  metadata : ∀ x ∈ e.metadata, x.2.length < Wire.sizeLimit ∧ ∀ d ∈ x.2, d.fits 0 = true
  timestamp : Wire.integerFits e.timestamp = true
  version : Wire.integerFits e.version = true

/-- The metadata of an envelope as a consumer of the binary form finds it. -/
def receivedMetadata (e : Envelope) : List (Datum × Datum) :=
  e.metadata.map fun x => (.plain x.1.id, .tuple x.2)

/-- A consumer of a map in binary form takes it for an envelope's document. -/
theorem decode_of_map {bs : Bytes} {doc : Document} (h : Wire.decode bs = .ok (.map doc))
    (current : Int) : decode current bs = accept current doc := by
  obtain ⟨b, r, rfl, mark⟩ := Wire.mark_of_decode_map h
  rw [decode, if_neg mark, h]

/-- An envelope with every value as a reader of the binary form finds it. -/
def received (e : Envelope) : Envelope :=
  { e with
    emitter := e.emitter.received
    actor := e.actor.received
    data := e.data.map Datum.received
    metadata := e.metadata.map fun x => (x.1, x.2.map Datum.received) }

theorem distinct_ids {e : Envelope} (distinct : (e.metadata.map Prod.fst).Nodup) :
    (e.metadata.map fun x => some (CodeText.proper x.1.id)).Nodup := by
  have keys := List.Nodup.map (f := fun k : MetadataKey => some (CodeText.proper k.id))
    (fun _ _ same => MetadataKey.id_injective (by simpa using same)) distinct
  rwa [List.map_map] at keys

theorem received_metadataMap {e : Envelope} (distinct : (e.metadata.map Prod.fst).Nodup) :
    (metadataMap e.metadata).received = .map e.received.receivedMetadata := by
  have keys : ((e.metadata.map fun x => (Datum.text (.key x.1), Datum.tuple x.2)).map
      fun x => x.1.keyText?).Nodup := by
    rw [List.map_map]
    exact distinct_ids distinct
  rw [metadataMap, Datum.received_map keys (List.forall_mem_map.mpr fun _ _ => rfl),
    Datum.receivedEntries_eq_map, List.map_map, receivedMetadata, received, List.map_map]
  refine congrArg Datum.map (List.map_congr_left fun x _ => ?_)
  simp only [Function.comp_apply, Datum.received, Datum.receivedAll_eq_map]
  rfl

/-- What a reader finds is the document of the envelope as received. -/
theorem received_toDocument {e : Envelope} (distinct : (e.metadata.map Prod.fst).Nodup) :
    (Datum.map e.toDocument).received
      = .map (e.received.shownAs (.tuple e.received.data) e.received.receivedMetadata) := by
  have names : (e.toDocument.map fun x => x.1.keyText?).Nodup := by
    change (fieldNames.map fun s => some (CodeText.proper s)).Nodup
    decide +kernel
  have texts : ∀ x ∈ e.toDocument, x.1.keyText?.isSome = true := by
    simp only [toDocument, documentOf, List.forall_mem_cons]
    exact ⟨rfl, rfl, rfl, rfl, rfl, rfl, rfl, by simp⟩
  have data : (Datum.tuple e.data).received = .tuple e.received.data := by
    rw [Datum.received, Datum.receivedAll_eq_map]
    rfl
  rw [Datum.received_map names texts, Datum.receivedEntries_eq_map]
  simp only [toDocument, documentOf, List.map_cons, List.map_nil, data,
    received_metadataMap distinct]
  rfl

theorem shows_received {e : Envelope} (distinct : (e.metadata.map Prod.fst).Nodup)
    (version : 1 ≤ e.version) : e.Shows (.tuple e.data) e.receivedMetadata where
  data := rfl
  metadata := by
    rw [receivedMetadata, List.forall₂_map_left_iff, List.forall₂_same]
    exact fun _ _ => ⟨rfl, rfl⟩
  distinct := distinct
  version := version

/-- A property of the identities and values of an envelope, and of each that stands under a metadata
key; the keys are distinct. -/
structure Holds (P : Datum → Prop) (e : Envelope) : Prop where
  emitter : P e.emitter
  actor : P e.actor
  data : ∀ d ∈ e.data, P d
  metadata : ∀ x ∈ e.metadata, ∀ d ∈ x.2, P d
  distinct : (e.metadata.map Prod.fst).Nodup
  version : 1 ≤ e.version

theorem Holds.imp {P Q : Datum → Prop} {e : Envelope} (h : e.Holds P)
    (weaker : ∀ {d : Datum}, P d → Q d) : e.Holds Q where
  emitter := weaker h.emitter
  actor := weaker h.actor
  data d hd := weaker (h.data d hd)
  metadata x hx d hd := weaker (h.metadata x hx d hd)
  distinct := h.distinct
  version := h.version

/-- An envelope whose identities and values are carried as they are. -/
abbrev IsSteady (e : Envelope) : Prop := e.Holds Datum.IsSteady

variable {e : Envelope}

namespace IsSteady

theorem shows (steady : e.IsSteady) : e.Shows (.tuple e.data) e.receivedMetadata :=
  shows_received steady.distinct steady.version

theorem isPortable_metadata (steady : e.IsSteady) :
    (metadataMap e.metadata).isPortable = true := by
  rw [metadataMap, Datum.isPortable, Bool.and_eq_true, decide_eq_true_eq, List.map_map]
  refine ⟨distinct_ids steady.distinct, ?_⟩
  rw [Datum.areEntriesPortable_eq_all, List.all_map, List.all_eq_true]
  exact fun x hx => (Datum.IsSteady.tuple (steady.metadata x hx)).portable

theorem isPortable (steady : e.IsSteady) : (Datum.map e.toDocument).isPortable = true := by
  have names : e.toDocument.map (fun x => x.1.keyText?)
      = fieldNames.map fun s => some (CodeText.proper s) := rfl
  rw [Datum.isPortable, names, Datum.areEntriesPortable_eq_all, decide_eq_true (by decide +kernel)]
  have data := (Datum.IsSteady.tuple steady.data).portable
  simp only [toDocument, documentOf, List.all_cons, List.all_nil, data, steady.isPortable_metadata,
    steady.emitter.portable, steady.actor.portable]
  rfl

theorem received_eq (steady : e.IsSteady) : e.received = e := by
  have data : e.data.map Datum.received = e.data := by
    rw [List.map_congr_left fun d hd => (steady.data d hd).received, List.map_id']
  have metadata : (e.metadata.map fun x => (x.1, x.2.map Datum.received)) = e.metadata := by
    have same (x) (hx : x ∈ e.metadata) : (x.1, x.2.map Datum.received) = x := by
      rw [List.map_congr_left fun d hd => (steady.metadata x hx d hd).received, List.map_id']
    rw [List.map_congr_left same, List.map_id']
  rw [Envelope.received, steady.emitter.received, steady.actor.received, data, metadata]

theorem received (steady : e.IsSteady) :
    (Datum.map e.toDocument).received = .map (e.shownAs (.tuple e.data) e.receivedMetadata) := by
  rw [received_toDocument steady.distinct, steady.received_eq]

end IsSteady

namespace IsTyped

theorem settled_emitter (typed : e.IsTyped) : e.emitter.IsSettled := by
  obtain ⟨a, h⟩ := typed.emitter
  exact .inr ⟨.address a, h⟩

theorem settled_actor (typed : e.IsTyped) : e.actor.IsSettled := by
  rcases typed.actor with h | ⟨a, h⟩
  · exact .inl h
  · exact .inr ⟨.address a, h⟩

theorem settled_data (typed : e.IsTyped) : ∀ d ∈ e.data, d.IsSettled := by
  obtain ⟨vs, h⟩ := typed.data
  intro d hd
  rw [h] at hd
  obtain ⟨v, _, rfl⟩ := List.mem_map.mp hd
  exact .inr ⟨v, rfl⟩

theorem settled_metadata (typed : e.IsTyped) :
    ∀ x ∈ e.metadata, ∀ d ∈ x.2, d.IsSettled := by
  obtain ⟨m, h, _⟩ := typed.metadata
  intro x hx d hd
  rw [h] at hx
  obtain ⟨y, _, rfl⟩ := List.mem_map.mp hx
  obtain ⟨v, _, rfl⟩ := List.mem_map.mp hd
  exact .inr ⟨v, rfl⟩

theorem distinct_keys (typed : e.IsTyped) : (e.metadata.map Prod.fst).Nodup := by
  obtain ⟨m, h, distinct⟩ := typed.metadata
  rwa [h, Metadata.map_fst_toEntries]

theorem settled (typed : e.IsTyped) : e.Holds Datum.IsSettled where
  emitter := typed.settled_emitter
  actor := typed.settled_actor
  data := typed.settled_data
  metadata := typed.settled_metadata
  distinct := typed.distinct_keys
  version := typed.version

theorem steady (typed : e.IsTyped) : e.IsSteady := typed.settled.imp fun h => h.steady

theorem shows (typed : e.IsTyped) : e.Shows (.tuple e.data) e.receivedMetadata := typed.steady.shows

/-- The vocabulary bounds how many keys there are. -/
theorem length_metadata_lt (typed : e.IsTyped) : e.metadata.length < Wire.sizeLimit := by
  have few : (e.metadata.map Prod.fst).length ≤ MetadataKey.all.length :=
    (typed.distinct_keys.subperm fun k _ => MetadataKey.mem_all k).length_le
  rw [List.length_map] at few
  exact Nat.lt_of_le_of_lt few (by decide)

theorem fits_metadata (typed : e.IsTyped) (inner : Nat) :
    (metadataMap e.metadata).fits (inner + 2) = true ↔
      ∀ x ∈ e.metadata, x.2.length < Wire.sizeLimit ∧ ∀ d ∈ x.2, d.fits 0 = true := by
  have keys (k : MetadataKey) : (Datum.text (.key k)).fits (inner + 1) = true := by
    change Wire.textFits k.id = true
    cases k <;> decide +kernel
  rw [metadataMap, Datum.fits, Datum.entriesFit_eq_all, List.length_map, List.all_map,
    decide_eq_true typed.length_metadata_lt, Bool.true_and, List.all_eq_true]
  refine forall₂_congr fun x hx => ?_
  simp only [Function.comp_apply, keys, Bool.true_and]
  exact Datum.IsSettled.fits_tuple (typed.settled_metadata x hx) inner

theorem isPortable (typed : e.IsTyped) : (Datum.map e.toDocument).isPortable = true :=
  typed.steady.isPortable

theorem received (typed : e.IsTyped) :
    (Datum.map e.toDocument).received = .map (e.shownAs (.tuple e.data) e.receivedMetadata) :=
  typed.steady.received

theorem fits_iff (typed : e.IsTyped) :
    (Datum.map e.toDocument).fits Wire.writerLevels = true ↔ e.WithinLimits := by
  have names : ∀ s ∈ fieldNames, (Datum.plain s).fits 510 = true := by decide +kernel
  simp only [fieldNames, List.forall_mem_cons] at names
  have topic : (Datum.topic e.topic).fits 510 = true := by
    change Wire.textFits e.topic.id = true
    cases e.topic <;> decide +kernel
  have data := Datum.IsSettled.fits_tuple typed.settled_data 509
  have metadata := typed.fits_metadata 508
  have numbers (n : Nat) : (Datum.number n).fits 510 = Wire.integerFits n := rfl
  have count : e.toDocument.length < Wire.sizeLimit := by
    change 7 < _
    decide
  change (Datum.map e.toDocument).fits (510 + 1) = true ↔ _
  rw [Datum.fits, Datum.entriesFit_eq_all, decide_eq_true count, Bool.true_and]
  simp only [toDocument, documentOf, List.all_cons, List.all_nil, Bool.and_true, Bool.true_and,
    Bool.and_eq_true, names, topic, data, metadata, numbers, typed.settled_emitter.fits,
    typed.settled_actor.fits]
  constructor
  · rintro ⟨emitter, actor, data, metadata, timestamp, version⟩
    exact ⟨emitter, actor, data, metadata, timestamp, version⟩
  · intro h
    exact ⟨h.emitter, h.actor, h.data, h.metadata, h.timestamp, h.version⟩

end IsTyped

end Envelope

end EventEnvelope
