import EventEnvelope.Codec.Event
import EventEnvelope.Proofs.JsonEnvelope

/-! How decoding an envelope fails. Bytes that hold no map, or a map that is no envelope, are faults
of value. Two steps take the document for granted: its version is compared with the consumer's own
before any field is checked, and a JSON text is taken for an object though a tag may have replaced
it. Main statement: decoding returns or ends in a fault of value, but for bytes that reach one of
the two steps unprepared. -/

namespace EventEnvelope

/-- Whether a failure says that a value is not what it should be: a fault of encoding, of a
document's fields, or of undecodable input. -/
def Failure.isValueFault : Failure → Bool
  | .encoding _ | .invalid _ | .manyValues _ _ | .emptyData | .undecodable _
  | .undecodableEvent _ | .notEventMap _ | .notEnvelope _ _ | .badValue | .unencodable => true
  | _ => false

namespace Datum

theorem atLeast?_number_eq (n : Int) (d : Datum) :
    atLeast? (.number n) d
      = d.quantity?.map (Quantity.atLeast (.finite (n * Binary64.unitsPerOne))) := by
  simp only [atLeast?, leafAtLeast?]
  cases d.quantity? <;> rfl

end Datum

theorem Version.check_of_unordered {version : Datum} (h : version.quantity? = none) (current : Int)
    (topic : Datum) (log : Log) :
    check current version topic log = (.error (.misuse .notComparable), log) := by
  unfold check isCompatible
  rw [Datum.atLeast?_number_eq, h]
  rfl

theorem Version.check_of_ordered {version : Datum} {q : Quantity} (h : version.quantity? = some q)
    (current : Int) (topic : Datum) (log : Log) :
    ∃ b log', check current version topic log = (.ok b, log') := by
  unfold check isCompatible
  rw [Datum.atLeast?_number_eq, h, Option.map_some]
  dsimp only
  rw [Reported.of, Reported.bind_apply, Reported.pure_apply]
  cases Quantity.atLeast (.finite (current * Binary64.unitsPerOne)) q with
  | true => exact ⟨true, log, rfl⟩
  | false => exact ⟨false, _, rfl⟩

namespace Envelope

/-- The version of a document as it is compared. One left out counts as zero. -/
def comparedVersion (doc : Document) : Datum := (Datum.get? doc versionField).getD (.number 0)

def EndsWell (r : Except Failure Envelope) : Prop :=
  (∃ e, r = .ok e) ∨ ∃ e, r = .error e ∧ e.isValueFault = true

/-- A document whose version is a number is accepted, or its fields are at fault. -/
theorem accept_endsWell_iff (current : Int) (doc : Document) (log : Log) :
    EndsWell (accept current doc log).1 ↔ (comparedVersion doc).quantity? ≠ none := by
  unfold accept
  rw [Reported.bind_apply, ← comparedVersion]
  cases ordered : (comparedVersion doc).quantity? with
  | none =>
    rw [Version.check_of_unordered ordered]
    simp [EndsWell, Failure.isValueFault]
  | some q =>
    obtain ⟨b, log', checked⟩ := Version.check_of_ordered ordered current (shown doc topicField) log
    rw [checked]
    refine iff_of_true ?_ (by simp)
    cases ofDocument doc with
    | ok e => exact .inl ⟨e, rfl⟩
    | error faults => exact .inr ⟨.invalid faults, rfl, rfl⟩

/-- The tree that bytes hold: JSON if they start with its mark, else the binary form. -/
def tree : Bytes → Except Failure Datum
  | [] => .error .emptyData
  | b :: bs =>
    if b = jsonMark then
      match Utf8.decode? (b :: bs) with
      | none => .error (.undecodable .invalidText)
      | some s =>
        match Json.parse? s with
        | none => .error (.undecodable .notJson)
        | some j => .ok j.toDatum
    else (Wire.decode (b :: bs)).mapError .undecodableEvent

/-- Bytes that reach a step unprepared: a version that is no number is compared with one, or what a
tag made of a JSON object is taken for an object. -/
inductive Unguarded : Bytes → Prop
  | version {bs : Bytes} {doc : Document} (held : tree bs = .ok (.map doc))
      (unordered : (comparedVersion doc).quantity? = none) : Unguarded bs
  | replaced {bs : Bytes} {d : Datum} (held : tree (jsonMark :: bs) = .ok d)
      (mapless : ∀ doc, d ≠ .map doc) : Unguarded (jsonMark :: bs)

/-- Decoding goes by the tree: it fails with the tree, accepts a map, and refuses anything else. -/
theorem decode_eq (current : Int) (bs : Bytes) (log : Log) :
    decode current bs log = match tree bs with
      | .error e => (.error e, log)
      | .ok (.map doc) => accept current doc log
      | .ok d => (.error (if bs.head? = some jsonMark then .notMap else .notEventMap d), log) := by
  cases bs with
  | nil => rfl
  | cons b bs =>
    by_cases mark : b = jsonMark
    · simp only [decode, tree, if_pos mark, decodeJson]
      cases Utf8.decode? (b :: bs) with
      | none => rfl
      | some s =>
        dsimp only
        cases Json.parse? s with
        | none => rfl
        | some j =>
          dsimp only
          cases j.toDatum with
          | map doc => rfl
          | _ => simp [mark]; rfl
    · simp only [decode, tree, if_neg mark]
      cases Wire.decode (b :: bs) with
      | error fault => rfl
      | ok d =>
        cases d with
        | map doc => rfl
        | _ => simp [mark, Except.mapError]; rfl

theorem isValueFault_of_tree {bs : Bytes} {e : Failure} (h : tree bs = .error e) :
    e.isValueFault = true := by
  unfold tree at h
  split at h
  · cases h
    rfl
  · split at h
    · split at h
      · cases h
        rfl
      · split at h
        · cases h
          rfl
        · cases h
    · cases read : Wire.decode _ with
      | error fault =>
        rw [read] at h
        cases h
        rfl
      | ok d =>
        rw [read] at h
        cases h

theorem decode_of_mapless {bs : Bytes} {d : Datum} (held : tree bs = .ok d)
    (mapless : ∀ doc, d ≠ .map doc) (current : Int) (log : Log) :
    (decode current bs log).1
      = .error (if bs.head? = some jsonMark then .notMap else .notEventMap d) := by
  rw [decode_eq, held]
  cases d with
  | map doc => exact absurd rfl (mapless doc)
  | _ => rfl

/-- Decoding returns an envelope or ends in a fault of value, unless the bytes reach a step
unprepared. -/
theorem decode_endsWell_iff (current : Int) (bs : Bytes) (log : Log) :
    EndsWell (decode current bs log).1 ↔ ¬Unguarded bs := by
  cases held : tree bs with
  | error e =>
    rw [decode_eq, held]
    refine iff_of_true (.inr ⟨e, rfl, isValueFault_of_tree held⟩) ?_
    rintro (⟨held', _⟩ | ⟨held', _⟩) <;> rw [held] at held' <;> cases held'
  | ok d =>
    by_cases mapped : ∃ doc, d = .map doc
    · obtain ⟨doc, rfl⟩ := mapped
      rw [decode_eq, held]
      dsimp only
      rw [accept_endsWell_iff]
      apply not_congr
      constructor
      · exact .version held
      · rintro (⟨held', unordered⟩ | ⟨held', mapless⟩)
        · rw [held] at held'
          cases held'
          exact unordered
        · rw [held] at held'
          cases held'
          exact absurd rfl (mapless doc)
    · have mapless : ∀ doc, d ≠ .map doc := fun doc same => mapped ⟨doc, same⟩
      rw [decode_of_mapless held mapless]
      -- only the binary form asks whether a map was read
      by_cases mark : bs.head? = some jsonMark
      · obtain ⟨rest, rfl⟩ : ∃ rest, bs = jsonMark :: rest := List.head?_eq_some_iff.mp mark
        refine iff_of_false ?_ (not_not_intro (.replaced held mapless))
        rw [if_pos mark]
        simp [EndsWell, Failure.isValueFault]
      · rw [if_neg mark]
        refine iff_of_true (.inr ⟨.notEventMap d, rfl, rfl⟩) ?_
        rintro (⟨held', _⟩ | ⟨held', _⟩)
        · rw [held] at held'
          cases held'
          exact mapless _ rfl
        · exact mark rfl

theorem tree_render {m : List (CodeText × Json)} (legible : (Json.object m).isLegible = true) :
    tree (Utf8.encode (Json.render (.object m))) = .ok (Json.toDatum (.object m)) := by
  obtain ⟨bs, marked⟩ := Json.mark_of_render m
  rw [marked, tree, if_pos rfl, ← marked, Utf8.decode?_encode]
  dsimp only
  rw [Json.parse?_render legible]

/-- A map in binary form whose version is the text `1`. -/
def texted : Bytes := [0x81, 0xa7, 0x76, 0x65, 0x72, 0x73, 0x69, 0x6f, 0x6e, 0xa1, 0x31]

set_option maxRecDepth 2048 in
theorem tree_texted : tree texted = .ok (.map [(.plain versionField, .plain "1")]) := by
  have read : Wire.decode texted
      = .ok (.map (Datum.ofEntries [(.plain versionField, .plain "1")])) := by rfl
  rw [texted] at read ⊢
  rw [tree, if_neg (by decide), read]
  rfl

/-- A map in binary form whose version is a text, and a JSON object that its tag makes an address,
both end in a failure that is no fault of value. -/
theorem decode_unguarded :
    (decode Version.current texted []).1 = .error (.misuse .notComparable) ∧
      (decode Version.current (Utf8.encode (Json.render (.object [("$addr", .text "x")]))) []).1
        = .error .notMap := by
  constructor
  · rw [decode_eq, tree_texted]
    dsimp only
    rw [accept, Reported.bind_apply, Version.check_of_unordered rfl]
  · have address : Json.toDatum (.object [("$addr", .text "x")]) = .address ⟨"x"⟩ := by rfl
    have held := address ▸ tree_render (m := [("$addr", .text "x")]) rfl
    obtain ⟨bs, marked⟩ := Json.mark_of_render [("$addr", .text "x")]
    rw [decode_of_mapless held (by simp [Datum.address]), marked]
    rfl

end Envelope

end EventEnvelope
