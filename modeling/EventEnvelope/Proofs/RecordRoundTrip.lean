import EventEnvelope.Proofs.BinaryEnvelope
import EventEnvelope.Proofs.LegacyRecord

/-! Records in binary form. A record of portable parts is read back in canonical form, with its
topics as plain text and its payload restored. A standardized record gives its envelope back; an
older record gives back its own payload. -/

namespace EventEnvelope

namespace Datum

mutual

/-- The structs in a value, in the order in which they are met. -/
def structs : Datum → List LegacyStruct
  | list xs => structsAll xs
  | tuple xs => structsAll xs
  | set xs => structsAll xs
  | map es => structsEntries es
  | struct s => [s]
  | _ => []

def structsAll : List Datum → List LegacyStruct
  | [] => []
  | x :: r => structs x ++ structsAll r

def structsEntries : List (Datum × Datum) → List LegacyStruct
  | [] => []
  | (k, v) :: r => structs k ++ structs v ++ structsEntries r

end

mutual

theorem structs_canonical : (d : Datum) → d.canonical.structs = d.structs
  | text t => by cases t <;> rfl
  | list xs => structsAll_canonical xs
  | tuple xs => structsAll_canonical xs
  | map es => structsEntries_canonical es
  | null | flag _ | number _ | real _ | bytes _ | set _ | struct _ | ext _ _ | timestamp _ _ => rfl

theorem structsAll_canonical : (xs : List Datum) → structsAll (canonicalAll xs) = structsAll xs
  | [] => rfl
  | x :: r => by
    rw [canonicalAll, structsAll, structs_canonical x, structsAll_canonical r, structsAll]

theorem structsEntries_canonical : (es : List (Datum × Datum)) →
    structsEntries (canonicalEntries es) = structsEntries es
  | [] => rfl
  | (k, v) :: r => by
    rw [canonicalEntries, structsEntries, structs_canonical k, structs_canonical v,
      structsEntries_canonical r, structsEntries]

end

mutual

/-- Only a struct needs restoring: all else is found in canonical form. -/
theorem received_eq_canonical : (d : Datum) → d.isPortable = true → d.structs = [] →
    d.received = d.canonical
  | null, _, _ | flag _, _, _ | number _, _, _ | text _, _, _ => rfl
  | list xs, portable, structless | tuple xs, portable, structless =>
    congrArg tuple (receivedAll_eq_canonicalAll xs portable structless)
  | map es, portable, structless => by
    rw [received_of_isPortable portable]
    rw [isPortable, Bool.and_eq_true] at portable
    exact congrArg map (receivedEntries_eq_canonicalEntries es portable.2 structless)

theorem receivedAll_eq_canonicalAll : (xs : List Datum) → arePortable xs = true →
    structsAll xs = [] → receivedAll xs = canonicalAll xs
  | [], _, _ => rfl
  | x :: r, portable, structless => by
    rw [arePortable, Bool.and_eq_true] at portable
    rw [structsAll, List.append_eq_nil_iff] at structless
    rw [receivedAll, canonicalAll, received_eq_canonical x portable.1 structless.1,
      receivedAll_eq_canonicalAll r portable.2 structless.2]

theorem receivedEntries_eq_canonicalEntries : (es : List (Datum × Datum)) →
    areEntriesPortable es = true → structsEntries es = [] →
    receivedEntries es = canonicalEntries es
  | [], _, _ => rfl
  | (k, v) :: r, portable, structless => by
    rw [areEntriesPortable, Bool.and_eq_true, Bool.and_eq_true] at portable
    rw [structsEntries, List.append_eq_nil_iff, List.append_eq_nil_iff] at structless
    obtain ⟨s, key⟩ := Option.isSome_iff_exists.mp portable.1.1
    obtain ⟨t, rfl, _⟩ := eq_text_of_keyText? key
    rw [receivedEntries, canonicalEntries, received_eq_canonical v portable.1.2 structless.1.2,
      receivedEntries_eq_canonicalEntries r portable.2 structless.2]
    rfl

end

end Datum

namespace Publication

/-- Whether a record keeps within the limits of the binary form. -/
def fits (p : Publication) : Bool :=
  (Datum.list [.tuple p.channel, p.payload]).fits Wire.writerLevels

/-- Whether all texts of a record have bytes. -/
def isEncodable (p : Publication) : Bool :=
  (Datum.list [.tuple p.channel, p.payload]).isEncodable

/-- A record within the limits has bytes, and a reader of them gets channel and payload back. -/
theorem encode_portable {p : Publication} (channel : Datum.arePortable p.channel = true)
    (payload : p.payload.isPortable = true) (free : p.payload.isFreeOfPoses = true) :
    Wire.Written p.fits p.isEncodable p.encode fun bs =>
      (decode bs).outcome = (.ok ⟨Datum.receivedAll p.channel, p.payload.canonical⟩, []) := by
  have portable : (Datum.list [.tuple p.channel, p.payload]).isPortable = true := by
    simp [Datum.isPortable, Datum.arePortable, channel, payload]
  refine (Wire.encode_portable portable).imp fun bs decoded => ?_
  rw [decode, decoded]
  exact Reported.bind_ok (LegacyStruct.restore_received p.payload payload free []) _

/-- A record without structs in its channel is read back in canonical form, and each struct of the
payload is the one that was written. -/
theorem decode_encode_canonical {p : Publication} (channel : Datum.arePortable p.channel = true)
    (structless : Datum.structsAll p.channel = []) (payload : p.payload.isPortable = true)
    (free : p.payload.isFreeOfPoses = true) :
    (Wire.Written p.fits p.isEncodable p.encode fun bs =>
      (decode bs).outcome = (.ok ⟨Datum.canonicalAll p.channel, p.payload.canonical⟩, [])) ∧
    p.payload.canonical.structs = p.payload.structs := by
  have written := encode_portable channel payload free
  rw [Datum.receivedAll_eq_canonicalAll p.channel channel structless] at written
  exact ⟨written, p.payload.structs_canonical⟩

/-- A struct inside a map, keys and texts of closed vocabularies, and an integer beyond 64 bits. -/
def nested : Publication where
  channel := [.topic .contractPaused, .list [.text (.group .admin), .address ⟨"a"⟩],
    .map [(.topic .mint, .symbol ⟨"s"⟩)]]
  payload := .list [.map [(.text (.key .amount), .number (-0x1000000000000000000)),
    (.plain Wire.structName, .tuple [.list [],
      .struct ⟨.contractPaused, [.address ⟨"b"⟩, .number 7], rfl⟩])]]

/-- The same record as it is read back. -/
def nestedCanonical : Publication where
  channel := [.plain "paused", .tuple [.plain "admin", .address ⟨"a"⟩],
    .map [(.plain "mint", .symbol ⟨"s"⟩)]]
  payload := .tuple [.map [(.plain "amount", .number (-0x1000000000000000000)),
    (.plain Wire.structName, .tuple [.tuple [],
      .struct ⟨.contractPaused, [.address ⟨"b"⟩, .number 7], rfl⟩])]]

theorem decode_encode_nested :
    ∃ bs, nested.encode = .ok bs ∧ (decode bs).outcome = (.ok nestedCanonical, []) := by
  have within : nested.fits = true := by decide +kernel
  have written := (decode_encode_canonical (p := nested) (by decide) (by decide) (by decide)
    (by decide)).1
  exact written.of_fits within

/-- A plain text that is a surrogate has no bytes, however small the record is. -/
theorem encode_surrogate :
    let p : Publication := ⟨[.plain "x"], .plain (.broken "" ⟨0⟩ (.proper ""))⟩
    (Datum.arePortable p.channel = true ∧ Datum.structsAll p.channel = [] ∧
      p.payload.isPortable = true ∧ p.payload.isFreeOfPoses = true) ∧
    p.encode = .error .unencodable :=
  ⟨by decide, rfl⟩

/-- A record of the older format within the limits is read back with its topic as plain text. -/
theorem IsLegacy.encode {p : Publication} (h : p.IsLegacy) :
    ∃ (topic : Topic) (vs : List Value), p.channel = .topic topic :: vs.map Value.toDatum ∧
      Wire.Written p.fits p.isEncodable p.encode fun bs =>
        (decode bs).outcome = (.ok ⟨.plain topic.id :: vs.map Value.toDatum, p.payload⟩, []) := by
  obtain ⟨⟨topic, vs, channel⟩, payload⟩ := h
  obtain ⟨portable, free, canonical⟩ := payload.carried
  have settled : ∀ d ∈ vs.map Value.toDatum, d.IsSettled := by
    intro d hd
    obtain ⟨v, _, rfl⟩ := List.mem_map.mp hd
    exact .inr ⟨v, rfl⟩
  have all : Datum.arePortable p.channel = true := by
    rw [channel, Datum.arePortable_eq_all, List.all_cons, Bool.and_eq_true, List.all_eq_true]
    exact ⟨rfl, fun d hd => (settled d hd).isPortable⟩
  have received : Datum.receivedAll p.channel = .plain topic.id :: vs.map Value.toDatum := by
    rw [channel, Datum.receivedAll_eq_map, List.map_cons,
      List.map_congr_left fun d hd => (settled d hd).received, List.map_id']
    rfl
  have written := encode_portable all portable free
  rw [received, canonical] at written
  exact ⟨topic, vs, channel, written⟩

end Publication

/-- No metadata key can be taken for that of a struct. -/
theorem MetadataKey.id_ne_structName (k : MetadataKey) : k.id ≠ Wire.structName := by
  cases k <;> decide +kernel

namespace Envelope

variable {e : Envelope}

namespace IsTyped

theorem free_metadata (typed : e.IsTyped) : (metadataMap e.metadata).isFreeOfPoses = true := by
  have unnamed : (Datum.receivedEntries (e.metadata.map fun x =>
      (Datum.text (.key x.1), Datum.tuple x.2))).any
      (fun x => x.1.content? == some (.proper Wire.structName)) = false := by
    rw [Datum.receivedEntries_eq_map, List.map_map, List.any_map, List.any_eq_false]
    intro x _ same
    exact x.1.id_ne_structName (CodeText.proper.inj (Option.some.inj (beq_iff_eq.mp same)))
  rw [metadataMap, Datum.isFreeOfPoses, Datum.posesAsStruct, unnamed, Bool.false_and,
    Bool.not_false, Bool.true_and, Datum.entriesFreeOfPoses_eq_all, List.all_map,
    List.all_eq_true]
  exact fun x hx => Datum.IsSettled.isFreeOfPoses_tuple (typed.settled_metadata x hx)

theorem canonical_metadata (typed : e.IsTyped) :
    (metadataMap e.metadata).canonical = .map e.receivedMetadata := by
  rw [metadataMap, Datum.canonical, Datum.canonicalEntries_eq_map, List.map_map, receivedMetadata]
  refine congrArg Datum.map (List.map_congr_left fun x hx => ?_)
  exact congrArg (Prod.mk _) (Datum.IsSettled.canonical_tuple (typed.settled_metadata x hx))

theorem isPortable_payload (typed : e.IsTyped) : e.payload.isPortable = true := by
  have data := Datum.IsSettled.isPortable_tuple typed.settled_data
  simp only [payload, Datum.isPortable, Datum.arePortable, typed.settled_emitter.isPortable,
    typed.settled_actor.isPortable, typed.steady.isPortable_metadata]
  simpa only [Datum.isPortable, Bool.and_true, Bool.true_and] using data

theorem free_payload (typed : e.IsTyped) : e.payload.isFreeOfPoses = true := by
  have data := Datum.IsSettled.isFreeOfPoses_tuple typed.settled_data
  simp only [payload, Datum.isFreeOfPoses, Datum.areFreeOfPoses,
    typed.settled_emitter.isFreeOfPoses, typed.settled_actor.isFreeOfPoses, typed.free_metadata]
  simpa only [Datum.isFreeOfPoses, Bool.and_true, Bool.true_and] using data

theorem canonical_payload (typed : e.IsTyped) :
    e.payload.canonical = .tuple [e.emitter, e.actor, .tuple e.data, .map e.receivedMetadata,
      .number e.timestamp, .number e.version] := by
  rw [payload, Datum.canonical, Datum.canonicalAll_eq_map]
  simp only [List.map_cons, List.map_nil, typed.settled_emitter.canonical,
    typed.settled_actor.canonical, Datum.IsSettled.canonical_tuple typed.settled_data,
    typed.canonical_metadata]
  rfl

end IsTyped

/-- A standardized record within the limits gives its envelope back, and a version beyond the
consumer's own is reported once. -/
theorem IsTyped.encode_publication (typed : e.IsTyped) (root : Symbol) :
    Wire.Written (e.publication root).fits (e.publication root).isEncodable
        (e.publication root).encode fun bs =>
      ∀ current, (do
        let p ← Publication.decode bs
        ofPublication current p.channel p.payload : Reported Envelope).outcome
        = (.ok e, if current < e.version then
          [Version.warning current (.number e.version) (.topic e.topic)] else []) := by
  have written := Publication.encode_portable (p := e.publication root) rfl typed.isPortable_payload
    typed.free_payload
  refine written.imp fun bs decoded current => (Reported.bind_ok decoded _).trans ?_
  change ofPublication current [.symbol root, .plain e.topic.id] e.payload.canonical [] = _
  rw [typed.canonical_payload]
  exact accept_shownAs typed.shows current []

end Envelope

end EventEnvelope
