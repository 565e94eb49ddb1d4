import EventEnvelope.Proofs.EnvelopeFraming
import EventEnvelope.Proofs.ForeignEnvelope
import EventEnvelope.Proofs.Restorable
import EventEnvelope.Proofs.Wire.TextKeys

/-! Written messages and their readers. A writer takes keys that no reader admits, and a plain map
under the keys of a struct, which a reader tries to make a struct of. Main statement: these two are
all that keeps a record from being read back, and the first is all that keeps an envelope. -/

namespace EventEnvelope

namespace Publication

/-- A record that can be read once it is written. -/
structure IsReadable (p : Publication) : Prop where
  keys : ∀ d ∈ p.payload :: p.channel, d.hasTextKeys = true
  structs : p.payload.received.isRestorable = true

variable {p : Publication} {bs : Bytes}

/-- The value that is written of a record holds what channel and payload hold. -/
theorem hasTextKeys_parts : (Datum.list [.tuple p.channel, p.payload]).hasTextKeys = true ↔
    ∀ d ∈ p.payload :: p.channel, d.hasTextKeys = true := by
  simp only [Datum.hasTextKeys, Datum.haveTextKeys, Datum.haveTextKeys_eq_all, Bool.and_eq_true,
    List.all_eq_true, List.forall_mem_cons]
  tauto

/-- With untyped texts for keys, all depends on the structs in the payload. -/
theorem decode_of_textKeys (written : p.encode = .ok bs)
    (keys : ∀ d ∈ p.payload :: p.channel, d.hasTextKeys = true) :
    decode bs = (do
        return ⟨Datum.receivedAll p.channel, ← LegacyStruct.restore p.payload.received⟩) ∧
      p.payload.received.IsFound := by
  have read := Wire.decode_of_textKeys written (hasTextKeys_parts.mpr keys)
  have found := (Wire.found_decode read).elements rfl
  simp only [Datum.receivedAll, List.forall_mem_cons] at found
  refine ⟨?_, found.2.1⟩
  rw [decode, read]
  rfl

/-- A written record is read back just when it is readable. -/
theorem decode_encode_iff (written : p.encode = .ok bs) :
    (p.IsReadable → ∃ payload log,
        (decode bs).outcome = (.ok ⟨Datum.receivedAll p.channel, payload⟩, log)) ∧
      (¬p.IsReadable → ∃ failure log, (decode bs).outcome = (.error failure, log)) := by
  by_cases keys : ∀ d ∈ p.payload :: p.channel, d.hasTextKeys = true
  · obtain ⟨run, found⟩ := decode_of_textKeys written keys
    have restored := LegacyStruct.restore_returnsIff found []
    constructor
    · intro readable
      obtain ⟨payload, log, restored⟩ := restored.mpr readable.structs
      refine ⟨payload, log, ?_⟩
      rw [run]
      exact Reported.bind_ok restored _
    · intro unreadable
      rw [run, Reported.outcome, Reported.bind_apply]
      rcases reply : LegacyStruct.restore p.payload.received [] with ⟨r, log⟩
      cases r with
      | error failure => exact ⟨failure, log, rfl⟩
      | ok payload => exact absurd ⟨keys, restored.mp ⟨payload, log, reply⟩⟩ unreadable
  · obtain ⟨fault, refused⟩ :=
      Wire.decode_of_otherKeys written fun texts => keys (hasTextKeys_parts.mp texts)
    constructor
    · intro readable
      exact absurd readable.keys keys
    · intro _
      refine ⟨.undecodable fault, [], ?_⟩
      rw [decode, refused]
      rfl

end Publication

namespace Envelope

variable {e : Envelope} {bs : Bytes}

/-- All other keys of the document are texts. -/
theorem hasTextKeys_toDocument : (Datum.map e.toDocument).hasTextKeys = true ↔
    ∀ d ∈ e.values, d.hasTextKeys = true := by
  rw [forall_mem_values]
  simp [toDocument, documentOf, metadataMap, Datum.hasTextKeys, Datum.haveTextKeys_eq_all,
    Datum.entriesHaveTextKeys_eq_all, Datum.keyText?, Datum.plain, Datum.topic, Text.isUntyped]

/-- A written envelope is read back, with its values as they are received, just when all keys in
them are untyped texts. -/
theorem decode_encode_iff {doc : Document} (made : ofDocument doc = .ok e)
    (written : e.encode = .ok bs) (current : Int) :
    ((∀ d ∈ e.values, d.hasTextKeys = true) →
        (decode current bs).outcome = (.ok e.received, if current < e.version then
          [Version.warning current (.number e.version) (.topic e.topic)] else [])) ∧
      ((¬∀ d ∈ e.values, d.hasTextKeys = true) →
        ∃ fault, Refuses current bs (.undecodableEvent fault)) := by
  have fields := isReadFrom_of_document made
  constructor
  · intro keys
    have read := Wire.decode_of_textKeys written (hasTextKeys_toDocument.mpr keys)
    exact decode_received read fields.distinct_keys fields.one_le_version current
  · intro keys
    obtain ⟨fault, refused⟩ :=
      Wire.decode_of_otherKeys written fun texts => keys (hasTextKeys_toDocument.mp texts)
    obtain ⟨b, r, rfl, first⟩ := Wire.mark_of_encode_map written
    exact ⟨fault, refuses_of_decode current first refused⟩

end Envelope

/-- What a writer produced is read back under conditions on keys and structs alone. A record comes
back, with its channel as received, just when all its keys are untyped texts and the maps that pose
as structs in it can be restored; any other record fails. An envelope that its constructor accepted
comes back with its values as received just when all keys in them are untyped texts, and is refused
otherwise. -/
theorem written_readable_iff (p : Publication) (doc : Document) (e : Envelope) (bs : Bytes)
    (current : Int) :
    (p.encode = .ok bs →
      (p.IsReadable → ∃ payload log, (Publication.decode bs).outcome
        = (.ok ⟨Datum.receivedAll p.channel, payload⟩, log)) ∧
      (¬p.IsReadable → ∃ failure log, (Publication.decode bs).outcome = (.error failure, log))) ∧
    (Envelope.ofDocument doc = .ok e → e.encode = .ok bs →
      ((∀ d ∈ e.values, d.hasTextKeys = true) →
        (Envelope.decode current bs).outcome = (.ok e.received, if current < e.version then
          [Version.warning current (.number e.version) (.topic e.topic)] else [])) ∧
      ((¬∀ d ∈ e.values, d.hasTextKeys = true) →
        ∃ fault, Envelope.Refuses current bs (.undecodableEvent fault))) := by
  constructor
  · intro written
    exact Publication.decode_encode_iff written
  · intro made written
    exact Envelope.decode_encode_iff made written current

/-- A record whose payload is a plain map under the keys of a struct, with the struct's fields. -/
def Publication.plainPause : Publication where
  channel := [.symbol ⟨"pause"⟩]
  payload := .map [(.plain Wire.structName, .plain LegacyKind.contractPaused.name),
    (.plain Wire.structFields, .map [(.plain Field.timestamp.name, .number 7),
      (.plain Field.pausedBy.name, .address ⟨"a"⟩)])]

/-- An envelope with a map under a text among its values. -/
def Envelope.noted : Envelope where
  topic := .transfer
  emitter := .address ⟨"a"⟩
  actor := .null
  data := [.map [(.plain "note", .list [.number 2])]]
  metadata := []
  timestamp := 1
  version := 1

theorem written_readable_noted :
    (∃ bs payload log, Publication.plainPause.encode = .ok bs ∧
      (Publication.decode bs).outcome = (.ok ⟨[.symbol ⟨"pause"⟩], payload⟩, log)) ∧
    ∃ bs, Envelope.noted.encode = .ok bs ∧
      (Envelope.decode 1 bs).outcome = (.ok Envelope.noted.received, []) := by
  let doc := Envelope.noted.toDocument
  constructor
  · obtain ⟨bs, written⟩ : ∃ bs, Publication.plainPause.encode = .ok bs := ⟨_, rfl⟩
    have readable : Publication.plainPause.IsReadable := by
      constructor
      · decide +kernel
      · decide +kernel
    have read := written_readable_iff .plainPause doc .noted bs 1
    obtain ⟨payload, log, read⟩ := (read.1 written).1 readable
    exact ⟨bs, payload, log, written, read⟩
  · obtain ⟨bs, written⟩ : ∃ bs, Envelope.noted.encode = .ok bs := ⟨_, rfl⟩
    have made : Envelope.ofDocument doc = .ok .noted := by rfl
    have read := written_readable_iff .plainPause doc .noted bs 1
    exact ⟨bs, written, (read.2 made written).1 (by decide +kernel)⟩

/-- A record with a number for a key. -/
def Publication.numbered : Publication := ⟨[.plain "t"], .map [(.number 1, .number 2)]⟩

/-- A record whose payload poses as a struct without any fields. -/
def Publication.posing : Publication where
  channel := [.plain "t"]
  payload := .map [(.plain Wire.structName, .plain LegacyKind.contractPaused.name),
    (.plain Wire.structFields, .number 1)]

/-- An envelope with a number for a key. -/
def Envelope.numbered : Envelope :=
  { Envelope.noted with data := [.map [(.number 1, .number 2)]] }

/-- What is written of a record with a number for a key, of one that poses as a struct and of an
envelope with a number for a key can be read by nobody. -/
theorem written_unreadable :
    (∃ bs, Publication.numbered.encode = .ok bs ∧
      (Publication.decode bs).outcome = (.error (.undecodable .malformed), [])) ∧
    (∃ bs, Publication.posing.encode = .ok bs ∧
      (Publication.decode bs).outcome = (.error .notMap, [])) ∧
    Envelope.ofDocument Envelope.numbered.toDocument = .ok Envelope.numbered ∧
    ∃ bs, Envelope.numbered.encode = .ok bs ∧
      (Envelope.decode 1 bs).outcome = (.error (.undecodableEvent .malformed), []) := by
  refine ⟨⟨_, rfl, rfl⟩, ?_, rfl, ⟨_, rfl, rfl⟩⟩
  obtain ⟨bs, written⟩ : ∃ bs, Publication.posing.encode = .ok bs := ⟨_, rfl⟩
  obtain ⟨run, _⟩ := Publication.decode_of_textKeys written (by decide +kernel)
  have found : Publication.posing.payload.received = Publication.posing.payload :=
    Datum.received_map (by decide) (by decide)
  refine ⟨bs, written, ?_⟩
  rw [run, found]
  rfl

end EventEnvelope
