import EventEnvelope.Proofs.Restore
import EventEnvelope.Proofs.Wire.Found

/-! Records of foreign origin. A payload may hold maps that pose as structs, with more keys than a
struct has, with fields to be coerced or under a name that denotes nothing. Main statement: whatever
message a consumer takes for a record, the record is read back from its own bytes. -/

namespace EventEnvelope

/-- A value that a consumer finds again once it is written. -/
structure Datum.IsRecoverable (d : Datum) : Prop where
  portable : d.isPortable = true
  restored : ∀ log, ∃ log', LegacyStruct.restore d.received log = (.ok d, log')

namespace LegacyStruct

variable {log log' : Log} {d : Datum} {xs : List Datum} {es : List (Datum × Datum)}

theorem mem_of_restoreAll {ys : List Datum} (h : restoreAll xs log = (.ok ys, log')) :
    ∀ y ∈ ys, ∃ x ∈ xs, ∃ before after, restore x before = (.ok y, after) := by
  induction xs generalizing ys log with
  | nil => cases h; simp
  | cons x xs ih =>
    rw [restoreAll] at h
    obtain ⟨y, mid, first, h⟩ := Reported.bind_eq_ok h
    obtain ⟨ys, last, rest, h⟩ := Reported.bind_eq_ok h
    cases h
    intro z hz
    rcases List.mem_cons.mp hz with rfl | hz
    · exact ⟨x, by simp, log, mid, first⟩
    · obtain ⟨x', hx, run⟩ := ih rest z hz
      exact ⟨x', by simp [hx], run⟩

theorem keys_of_restoreValues {fs : List (Datum × Datum)}
    (h : restoreValues es log = (.ok fs, log')) : fs.map Prod.fst = es.map Prod.fst ∧
      ∀ f ∈ fs, ∃ e ∈ es, ∃ before after, restore e.2 before = (.ok f.2, after) := by
  induction es generalizing fs log with
  | nil => cases h; simp
  | cons e es ih =>
    rw [restoreValues] at h
    obtain ⟨v, mid, first, h⟩ := Reported.bind_eq_ok h
    obtain ⟨fs, last, rest, h⟩ := Reported.bind_eq_ok h
    cases h
    obtain ⟨keys, values⟩ := ih rest
    constructor
    · simp [keys]
    · intro f hf
      rcases List.mem_cons.mp hf with rfl | hf
      · exact ⟨e, by simp, log, mid, first⟩
      · obtain ⟨e', he, run⟩ := values f hf
        exact ⟨e', by simp [he], run⟩

theorem posesAsStruct_of_keys {fs : List (Datum × Datum)}
    (keys : fs.map Prod.fst = es.map Prod.fst) :
    Datum.posesAsStruct fs = Datum.posesAsStruct es := by
  have any (gs : List (Datum × Datum)) (name : String) :
      gs.any (fun e => e.1.content? == some (.proper name))
        = (gs.map Prod.fst).any fun k => k.content? == some (.proper name) := by
    rw [List.any_map]
    rfl
  simp only [Datum.posesAsStruct, any, keys]

/-- What becomes of a map: it is restored value by value, left with all that is in it, or taken for
a struct. -/
theorem restore_map_eq_ok (h : restore (.map es) log = (.ok d, log')) :
    (Datum.posesAsStruct es = false ∧
      ∃ fs, d = .map fs ∧ restoreValues es log = (.ok fs, log')) ∨
    (d = .map es ∧ ∀ before, ∃ after, restore (.map es) before = (.ok (.map es), after)) ∨
    ∃ s, d = .struct s := by
  cases poses : Datum.posesAsStruct es with
  | false =>
    rw [restore_map poses] at h
    obtain ⟨fs, mid, values, h⟩ := Reported.bind_eq_ok h
    cases h
    exact .inl ⟨rfl, fs, rfl, values⟩
  | true =>
    rw [posesAsStruct_eq, Bool.and_eq_true] at poses
    obtain ⟨name, named⟩ := Option.isSome_iff_exists.mp poses.1
    obtain ⟨fields, listed⟩ := Option.isSome_iff_exists.mp poses.2
    rw [restore_posed named listed] at h
    obtain ⟨kind?, mid, kind, h⟩ := Reported.bind_eq_ok h
    have kind := Reported.of_eq_ok kind
    cases kind? with
    | none =>
      cases h
      refine .inr (.inl ⟨rfl, fun before => ?_⟩)
      rw [restore_posed named listed, kind]
      exact ⟨_, rfl⟩
    | some k =>
      obtain ⟨fs, _, _, h⟩ := Reported.bind_eq_ok h
      obtain ⟨s, _, _, h⟩ := Reported.bind_eq_ok h
      cases h
      exact .inr (.inr ⟨s, rfl⟩)

theorem restoreAll_recoverable (h : ∀ x ∈ xs, x.IsRecoverable) (log : Log) :
    ∃ log', restoreAll (xs.map Datum.received) log = (.ok xs, log') := by
  induction xs generalizing log with
  | nil => exact ⟨log, rfl⟩
  | cons x xs ih =>
    obtain ⟨mid, first⟩ := (h x (by simp)).restored log
    obtain ⟨last, rest⟩ := ih (fun y hy => h y (by simp [hy])) mid
    refine ⟨last, ?_⟩
    rw [List.map_cons, restoreAll, Reported.bind_ok first, Reported.bind_ok rest]
    rfl

theorem restoreValues_recoverable (h : ∀ e ∈ es, e.2.IsRecoverable) (log : Log) :
    ∃ log', restoreValues (es.map fun e => (e.1, e.2.received)) log = (.ok es, log') := by
  induction es generalizing log with
  | nil => exact ⟨log, rfl⟩
  | cons e es ih =>
    obtain ⟨mid, first⟩ := (h e (by simp)).restored log
    obtain ⟨last, rest⟩ := ih (fun f hf => h f (by simp [hf])) mid
    refine ⟨last, ?_⟩
    rw [List.map_cons, restoreValues, Reported.bind_ok first, Reported.bind_ok rest]
    rfl

end LegacyStruct

namespace Datum

open LegacyStruct (restore restoreAll_recoverable restoreValues_recoverable)

theorem IsRecoverable.tuple {xs : List Datum} (h : ∀ x ∈ xs, x.IsRecoverable) :
    (Datum.tuple xs).IsRecoverable := by
  constructor
  · rw [isPortable, arePortable_eq_all, List.all_eq_true]
    exact fun x hx => (h x hx).portable
  · intro log
    obtain ⟨log', parts⟩ := restoreAll_recoverable h log
    refine ⟨log', ?_⟩
    rw [received, receivedAll_eq_map, restore, Reported.bind_ok parts]
    rfl

theorem IsRecoverable.map {es : List (Datum × Datum)} (keys : HasPlainKeys es)
    (free : posesAsStruct es = false) (h : ∀ e ∈ es, e.2.IsRecoverable) :
    (Datum.map es).IsRecoverable := by
  constructor
  · exact keys.isPortable_map fun e he => (h e he).portable
  · intro log
    obtain ⟨log', values⟩ := restoreValues_recoverable h log
    have same : (es.map fun e => (e.1, e.2.received)).map Prod.fst = es.map Prod.fst := by
      rw [List.map_map]
      rfl
    refine ⟨log', ?_⟩
    rw [keys.received_map,
      LegacyStruct.restore_map ((LegacyStruct.posesAsStruct_of_keys same).trans free),
      Reported.bind_ok values]
    rfl

theorem isRecoverable_struct (s : LegacyStruct) : (Datum.struct s).IsRecoverable :=
  ⟨rfl, fun log => ⟨log, LegacyStruct.restore_ofStruct s log⟩⟩

theorem restore_whole {d d' : Datum} {log log' : Log} {w : Wire} (whole : d.isWhole = true)
    (h : restore d log = (.ok d', log')) (tree : Wire.ofDatum d' = .ok w) : d'.IsRecoverable := by
  cases d with
  | null => cases h; exact ⟨rfl, fun log => ⟨log, rfl⟩⟩
  | flag b => cases h; exact ⟨rfl, fun log => ⟨log, rfl⟩⟩
  | number n => cases h; exact ⟨rfl, fun log => ⟨log, rfl⟩⟩
  | text t =>
    cases t <;> first | contradiction | (cases h; exact ⟨rfl, fun log => ⟨log, rfl⟩⟩)
  | real x => cases h; cases tree
  | bytes bs => cases h; cases tree
  | ext code bs => cases h; cases tree
  | timestamp seconds nanoseconds => cases h; cases tree
  | _ => contradiction

/-- What is restored of a value that was found is found again, if it can be written. -/
theorem IsFound.recoverable {d d' : Datum} {log log' : Log} {w : Wire} (found : d.IsFound)
    (h : restore d log = (.ok d', log')) (tree : Wire.ofDatum d' = .ok w) : d'.IsRecoverable := by
  -- along what was read; the maps that pose as structs need no hypothesis about their parts
  induction found generalizing d' log log' w with
  | whole whole => exact restore_whole whole h tree
  | tuple _ ih =>
    rw [restore] at h
    obtain ⟨ys, mid, parts, h⟩ := Reported.bind_eq_ok h
    cases h
    refine IsRecoverable.tuple fun y hy => ?_
    obtain ⟨x, hx, before, after, run⟩ := LegacyStruct.mem_of_restoreAll parts y hy
    obtain ⟨w, part⟩ := Wire.ofDatum_tuple_ok tree y hy
    exact ih x hx run part
  | @map es keys values ih =>
    rcases LegacyStruct.restore_map_eq_ok h with ⟨free, fs, rfl, run⟩ | ⟨rfl, again⟩ | ⟨s, rfl⟩
    · obtain ⟨same, restored⟩ := LegacyStruct.keys_of_restoreValues run
      have written := Wire.ofDatum_map_ok tree
      have plain := (keys.of_keys same).plain fun f hf => (written f hf).1
      refine IsRecoverable.map plain ((LegacyStruct.posesAsStruct_of_keys same).trans free) ?_
      intro f hf
      obtain ⟨e, he, before, after, run⟩ := restored f hf
      obtain ⟨w, value⟩ := (written f hf).2
      exact ih e he run value
    · have steady := (IsFound.map keys values).steady tree
      exact ⟨steady.portable, by rw [steady.received]; exact again⟩
    · exact isRecoverable_struct s

end Datum

namespace Publication

variable {p : Publication}

/-- A message that was taken for a record holds channel and payload, and nothing else. -/
theorem parts_of_decode {bs : Bytes} {log log' : Log} (h : decode bs log = (.ok p, log')) :
    ∃ d channel payload, Wire.decode bs = .ok d ∧ d.elements? = some [channel, payload] ∧
      channel.elements? = some p.channel ∧
      LegacyStruct.restore payload log = (.ok p.payload, log') := by
  rw [decode] at h
  cases read : Wire.decode bs with
  | error fault => rw [read] at h; cases h
  | ok d =>
    cases parts : d.elements? with
    | none => rw [read] at h; dsimp only at h; rw [parts] at h; cases h
    | some xs =>
      rw [read] at h
      dsimp only at h
      rw [parts] at h
      rcases xs with _ | ⟨channel, _ | ⟨payload, _ | ⟨extra, rest⟩⟩⟩
      · cases h
      · cases h
      · cases listed : channel.elements? with
        | none => simp only [listed] at h; cases h
        | some elements =>
          simp only [listed] at h
          obtain ⟨restored, mid, run, h⟩ := Reported.bind_eq_ok h
          cases h
          exact ⟨d, channel, payload, rfl, parts, listed, run⟩
      · cases h

/-- Whatever message a consumer takes for a record: once the record is written again, a consumer of
the new bytes reads the same record. -/
theorem decode_encode_restored {bs bs' : Bytes} {log : Log}
    (accepted : (decode bs).outcome = (.ok p, log)) (written : p.encode = .ok bs') :
    ((decode bs').outcome).1 = .ok p := by
  obtain ⟨d, channel, payload, read, parts, listed, run⟩ := parts_of_decode accepted
  have found := (Wire.found_decode read).elements parts
  obtain ⟨w, tree⟩ := Wire.ofDatum_of_encode written
  have trees := Wire.ofDatum_list_ok tree
  simp only [List.forall_mem_cons] at found trees
  obtain ⟨foundChannel, foundPayload, _⟩ := found
  obtain ⟨⟨_, channelTree⟩, ⟨_, payloadTree⟩, _⟩ := trees
  have steady : (Datum.tuple p.channel).IsSteady :=
    (Datum.IsFound.tuple (foundChannel.elements listed)).steady channelTree
  have payload := foundPayload.recoverable run payloadTree
  have portable : (Datum.list [.tuple p.channel, p.payload]).isPortable = true := by
    rw [Datum.isPortable, Datum.arePortable, Datum.arePortable, steady.portable, payload.portable]
    rfl
  have again : Wire.decode bs'
      = .ok (.tuple [(Datum.tuple p.channel).received, p.payload.received]) :=
    Datum.decode_encode_received portable written
  obtain ⟨log', restored⟩ := payload.restored []
  rw [steady.received] at again
  rw [decode, again]
  exact congrArg Prod.fst (Reported.bind_ok restored _)

/-- A message that no writer of this library produces: a text for a channel, a struct with a key too
many and a text for its time, and a struct of unknown name around one that is broken. -/
def irregular : Bytes :=
  let text (s : String) : Bytes := UInt8.ofNat (0xa0 + s.length) :: Utf8.encode s
  0x92 :: text "ab" ++ 0x92 ::
    (0x83 :: text Wire.structName ++ text LegacyKind.contractPaused.name ++
      text "note" ++ 0xc3 ::
      text Wire.structFields ++ 0x82 ::
        text Field.timestamp.name ++ text "+7.0" ++
        text Field.pausedBy.name ++ 0xd4 :: 1 :: Utf8.encode "a") ++
    (0x82 :: text Wire.structName ++ text "Unheard" ++
      text Wire.structFields ++ 0x82 ::
        text Wire.structName ++ text LegacyKind.contractPaused.name ++
        text Wire.structFields ++ [0xc0])

/-- What a consumer makes of that message. -/
def settled : Publication where
  channel := [.plain "a", .plain "b"]
  payload := .tuple [
    .struct ⟨.contractPaused, [.address ⟨"a"⟩, .number 7], rfl⟩,
    .map [(.plain Wire.structName, .plain "Unheard"),
      (.plain Wire.structFields, .map [
        (.plain Wire.structName, .plain LegacyKind.contractPaused.name),
        (.plain Wire.structFields, .null)])]]

set_option maxRecDepth 4096 in
theorem decode_irregular : (decode irregular).outcome
    = (.ok settled, [LegacyStruct.unknownName (.plain "Unheard")]) := by
  let paused : List (Datum × Datum) :=
    [(.plain Field.timestamp.name, .plain "+7.0"), (.plain Field.pausedBy.name, .address ⟨"a"⟩)]
  let known (fields : List (Datum × Datum)) : List (Datum × Datum) :=
    [(.plain Wire.structName, .plain LegacyKind.contractPaused.name), (.plain "note", .flag true),
      (.plain Wire.structFields, .map fields)]
  let broken : List (Datum × Datum) :=
    [(.plain Wire.structName, .plain LegacyKind.contractPaused.name),
      (.plain Wire.structFields, .null)]
  let unheard (fields : List (Datum × Datum)) : List (Datum × Datum) :=
    [(.plain Wire.structName, .plain "Unheard"), (.plain Wire.structFields, .map fields)]
  have read : Wire.decode irregular = .ok (.tuple [.plain "ab", .tuple [
      .map (Datum.ofEntries (known (Datum.ofEntries paused))),
      .map (Datum.ofEntries (unheard (Datum.ofEntries broken)))]]) := by rfl
  have merged (es : List (Datum × Datum)) (texts : ∀ e ∈ es, e.1.content?.isSome = true)
      (distinct : (es.map fun e => e.1.content?).Nodup) : Datum.ofEntries es = es :=
    Datum.DistinctTexts.ofEntries_eq ⟨texts, distinct⟩
  rw [merged paused (by decide) (by decide), merged broken (by decide) (by decide),
    merged (known paused) (by decide) (by decide),
    merged (unheard broken) (by decide) (by decide)] at read
  rw [decode, read]
  rfl

theorem decode_encode_unheard : (decode irregular).outcome
      = (.ok settled, [LegacyStruct.unknownName (.plain "Unheard")]) ∧
    ∃ bs, settled.encode = .ok bs ∧ ((decode bs).outcome).1 = .ok settled := by
  refine ⟨decode_irregular, _, rfl, ?_⟩
  exact decode_encode_restored decode_irregular rfl

end Publication

end EventEnvelope
