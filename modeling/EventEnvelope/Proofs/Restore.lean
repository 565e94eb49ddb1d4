import EventEnvelope.Codec.Record
import EventEnvelope.Proofs.Effects
import EventEnvelope.Proofs.TypedEnvelope
import EventEnvelope.Proofs.Wire.Portable

/-! Restoring structs. A struct is read back from its own fields, at any depth of a record; a value
without maps that pose as structs comes back in its canonical form. -/

namespace EventEnvelope

namespace Datum

theorem get?_of_mem {es : List (Datum × Datum)} (keys : DistinctTexts es) {k v : Datum} {s : String}
    (h : (k, v) ∈ es) (named : k.content? = some (.proper s)) : get? es s = some v := by
  obtain ⟨before, after, rfl⟩ := List.append_of_mem h
  have apart : before.find? (fun e => e.1.content? == some (.proper s)) = none := by
    rw [List.find?_eq_none]
    intro e he same
    have distinct := keys.distinct
    rw [List.map_append, List.nodup_append] at distinct
    have := distinct.2.2 e.1.content? (List.mem_map_of_mem he) k.content? (by simp)
    exact this ((beq_iff_eq.mp same).trans named.symm)
  rw [get?, List.find?_append, apart]
  simp [named]

mutual

/-- The form in which a value comes back: texts of closed vocabularies as plain text, and sequences
as tuples. Structs stay what they are. -/
def canonical : Datum → Datum
  | text t => if t.isUntyped then plain t.carried else text t
  | list xs => tuple (canonicalAll xs)
  | tuple xs => tuple (canonicalAll xs)
  | map es => map (canonicalEntries es)
  | d => d

def canonicalAll : List Datum → List Datum
  | [] => []
  | x :: r => canonical x :: canonicalAll r

def canonicalEntries : List (Datum × Datum) → List (Datum × Datum)
  | [] => []
  | (k, v) :: r => (canonical k, canonical v) :: canonicalEntries r

end

/-- A map with both keys under which a struct travels. -/
def posesAsStruct (es : List (Datum × Datum)) : Bool :=
  es.any (fun e => e.1.content? == some (.proper Wire.structName))
    && es.any fun e => e.1.content? == some (.proper Wire.structFields)

mutual

/-- No map in the value poses as a struct to whoever reads it. -/
def isFreeOfPoses : Datum → Bool
  | list xs => areFreeOfPoses xs
  | tuple xs => areFreeOfPoses xs
  | map es => !posesAsStruct (receivedEntries es) && entriesFreeOfPoses es
  | _ => true

def areFreeOfPoses : List Datum → Bool
  | [] => true
  | x :: r => isFreeOfPoses x && areFreeOfPoses r

def entriesFreeOfPoses : List (Datum × Datum) → Bool
  | [] => true
  | (_, v) :: r => isFreeOfPoses v && entriesFreeOfPoses r

end

theorem canonicalAll_eq_map (xs : List Datum) : canonicalAll xs = xs.map canonical := by
  induction xs with
  | nil => rfl
  | cons x r ih => rw [canonicalAll, ih, List.map_cons]

theorem canonicalEntries_eq_map (es : List (Datum × Datum)) :
    canonicalEntries es = es.map fun e => (e.1.canonical, e.2.canonical) := by
  induction es with
  | nil => rfl
  | cons e r ih => rw [canonicalEntries, ih, List.map_cons]

theorem areFreeOfPoses_eq_all (xs : List Datum) : areFreeOfPoses xs = xs.all isFreeOfPoses := by
  induction xs with
  | nil => rfl
  | cons x r ih => rw [areFreeOfPoses, ih, List.all_cons]

theorem entriesFreeOfPoses_eq_all (es : List (Datum × Datum)) :
    entriesFreeOfPoses es = es.all fun e => e.2.isFreeOfPoses := by
  induction es with
  | nil => rfl
  | cons e r ih => rw [entriesFreeOfPoses, ih, List.all_cons]

namespace IsSettled

theorem canonical {d : Datum} (h : d.IsSettled) : d.canonical = d := by
  rcases h with rfl | ⟨v, rfl⟩
  · rfl
  · cases v <;> rfl

theorem isFreeOfPoses {d : Datum} (h : d.IsSettled) : d.isFreeOfPoses = true := by
  rcases h with rfl | ⟨v, rfl⟩
  · rfl
  · cases v <;> rfl

theorem canonical_tuple {ds : List Datum} (h : ∀ d ∈ ds, d.IsSettled) :
    (Datum.tuple ds).canonical = .tuple ds := by
  rw [Datum.canonical, canonicalAll_eq_map, List.map_congr_left fun d hd => (h d hd).canonical,
    List.map_id']

theorem isFreeOfPoses_tuple {ds : List Datum} (h : ∀ d ∈ ds, d.IsSettled) :
    (Datum.tuple ds).isFreeOfPoses = true := by
  rw [Datum.isFreeOfPoses, areFreeOfPoses_eq_all, List.all_eq_true]
  exact fun d hd => (h d hd).isFreeOfPoses

end IsSettled

end Datum

namespace Coerce

theorem value_of_fits {f : Field} {v : Value} (h : f.fits v = true) :
    value f v.toDatum = .ok v := by
  cases v with
  | flag b =>
    have role : f.role = .flag := by simpa [Field.fits] using h
    simp [value, role, Value.toDatum, flag, Except.map]
  | number n =>
    simp only [Field.fits, Bool.and_eq_true, decide_eq_true_eq, Bool.or_eq_true,
      Bool.not_eq_true'] at h
    have counted : ¬(f.isCount && decide (n < 0)) = true := by
      rcases h.2 with free | natural
      · simp [free]
      · simp [natural]
    simp [value, h.1, Value.toDatum, integer, counted]
  | symbol s =>
    have role : f.role = .text := by simpa [Field.fits] using h
    simp [value, role, Value.toDatum]
  | address a =>
    have role : f.role = .identity := by simpa [Field.fits] using h
    simp [value, role, Value.toDatum]

end Coerce

namespace LegacyKind

theorem readField_of_get? {doc : Document} {f : Field} {v : Value}
    (found : Datum.get? doc f.name = some v.toDatum) (h : f.fits v = true) :
    readField doc f = .ok ⟨v, h⟩ := by
  unfold readField
  simp only [found]
  split
  · next v' read =>
    rw [Coerce.value_of_fits h] at read
    cases read
    rfl
  · next kind read =>
    rw [Coerce.value_of_fits h] at read
    cases read

/-- What is read of a field that is there was coerced. -/
theorem value_of_readField {doc : Document} {f : Field} {d : Datum}
    {r : { v : Value // f.fits v = true }} (found : Datum.get? doc f.name = some d)
    (h : readField doc f = .ok r) : Coerce.value f d = .ok r.1 := by
  unfold readField at h
  simp only [found] at h
  split at h
  · next v coerced =>
    cases h
    exact coerced
  · cases h

theorem readFields_of_get? {doc : Document} {fs : List Field} {vs : List Value}
    (h : Field.fitsAll fs vs = true)
    (found : ∀ e ∈ fs.zip vs, Datum.get? doc e.1.name = some e.2.toDatum) :
    readFields doc fs = .ok ⟨vs, h⟩ := by
  induction fs generalizing vs with
  | nil =>
    cases vs with
    | nil => rfl
    | cons v vs => simp [Field.fitsAll] at h
  | cons f fs ih =>
    cases vs with
    | nil => simp [Field.fitsAll] at h
    | cons v vs =>
      have parts := h
      simp only [Field.fitsAll, Bool.and_eq_true] at parts
      have first := readField_of_get? (found (f, v) (by simp)) parts.1
      have rest := ih parts.2 fun e he => found e (by simp [he])
      rw [readFields, first, rest]
      rfl

end LegacyKind

namespace LegacyStruct

def toDocument (s : LegacyStruct) : Document :=
  s.entries.map fun e => (.plain e.1.name, e.2.toDatum)

theorem announced_toDocument (s : LegacyStruct) :
    s.toDocument.Announced (s.kind.fields.map Field.name) := by
  intro e he
  obtain ⟨entry, inside, rfl⟩ := List.mem_map.mp he
  have field : entry.1 ∈ s.kind.fields := s.map_fst_entries ▸ List.mem_map_of_mem inside
  exact ⟨entry.1.name, List.mem_map_of_mem field, rfl⟩

theorem read_toDocument (s : LegacyStruct) : s.kind.read s.toDocument = .ok s := by
  have found (e : Field × Value) (he : e ∈ s.entries) :
      Datum.get? s.toDocument e.1.name = some e.2.toDatum :=
    Datum.get?_of_mem s.distinctTexts (List.mem_map_of_mem he) rfl
  have fields := LegacyKind.readFields_of_get? s.fits found
  rw [LegacyKind.read, fields, Document.closed_eq s.announced_toDocument]
  rfl

theorem ofFields_toDocument (s : LegacyStruct) : ofFields s.kind s.toDocument = .ok s := by
  have texts : s.toDocument.any (fun e => e.1.content?.isNone) = false := by
    simp [toDocument, Datum.plain, Datum.content?]
  rw [ofFields, texts, s.read_toDocument]
  rfl

/-- The fields of a struct are restored before the struct is made of them. -/
def restoredFields : Datum → Reported Document
  | .map fs => restoreValues fs
  | _ => throw .notMap

theorem restoredFields?_eq (es : List (Datum × Datum)) :
    restoredFields? es = (Datum.get? es Wire.structFields).map restoredFields := by
  induction es with
  | nil => rfl
  | cons e r ih =>
    obtain ⟨k, v⟩ := e
    by_cases named : k.content? = some (.proper Wire.structFields)
    · cases v <;> simp [restoredFields?, restoredFields, Datum.get?, named]
    · have passed : restoredFields? ((k, v) :: r) = restoredFields? r := by
        cases v <;> simp [restoredFields?, named]
      have skipped : Datum.get? ((k, v) :: r) Wire.structFields
          = Datum.get? r Wire.structFields := by
        rw [Datum.get?, List.find?_cons_of_neg (by simpa using named)]
        rfl
      rw [passed, skipped, ih]

/-- Exactly the maps with both keys are looked at as structs. -/
theorem posesAsStruct_eq (es : List (Datum × Datum)) : Datum.posesAsStruct es
    = ((Datum.get? es Wire.structName).isSome && (Datum.get? es Wire.structFields).isSome) := by
  simp only [Datum.get?, Option.isSome_map, List.isSome_find?]
  rfl

theorem restore_map {es : List (Datum × Datum)} (free : Datum.posesAsStruct es = false) :
    restore (.map es) = do return .map (← restoreValues es) := by
  rw [posesAsStruct_eq, Bool.and_eq_false_iff] at free
  rw [restore, restoredFields?_eq]
  -- a map without the name and one without the fields fall through different branches
  rcases free with unnamed | fieldless
  · rw [Option.isSome_eq_false_iff, Option.isNone_iff_eq_none] at unnamed
    rw [unnamed]
  · rw [Option.isSome_eq_false_iff, Option.isNone_iff_eq_none] at fieldless
    rw [fieldless]
    cases Datum.get? es Wire.structName <;> rfl

theorem restore_posed {es : List (Datum × Datum)} {name fields : Datum}
    (named : Datum.get? es Wire.structName = some name)
    (listed : Datum.get? es Wire.structFields = some fields) :
    restore (.map es) = do
      match ← Reported.of (kindOf name) with
      | none =>
        Reported.report (unknownName name)
        return .map es
      | some kind => return .struct (← Reported.of (ofFields kind (← restoredFields fields))) := by
  rw [restore, named, restoredFields?_eq, listed]
  rfl

theorem restore_settled {d : Datum} (h : d.IsSettled) (log : Log) :
    restore d log = (.ok d, log) := by
  rcases h with rfl | ⟨v, rfl⟩
  · rfl
  · cases v <;> rfl

theorem restoreValues_fixed {es : List (Datum × Datum)}
    (h : ∀ e ∈ es, ∀ log, restore e.2 log = (.ok e.2, log)) (log : Log) :
    restoreValues es log = (.ok es, log) := by
  induction es with
  | nil => rfl
  | cons e r ih =>
    rw [restoreValues, Reported.bind_ok (h e (by simp) log),
      Reported.bind_ok (ih fun e' he => h e' (by simp [he]))]
    rfl

/-- A struct is restored from the map it travelled as. -/
theorem restore_ofStruct (s : LegacyStruct) (log : Log) :
    restore (Datum.ofStruct s) log = (.ok (.struct s), log) := by
  have name : Datum.get? [(Datum.plain Wire.structName, Datum.plain s.kind.name),
      (Datum.plain Wire.structFields, .map s.toDocument)] Wire.structName
      = some (.plain s.kind.name) := rfl
  have fields : Datum.get? [(Datum.plain Wire.structName, Datum.plain s.kind.name),
      (Datum.plain Wire.structFields, .map s.toDocument)] Wire.structFields
      = some (.map s.toDocument) := rfl
  have kind : kindOf (.plain s.kind.name) = .ok (some s.kind) :=
    congrArg Except.ok (LegacyKind.ofName?_name s.kind)
  have fixed : ∀ e ∈ s.toDocument, ∀ log, restore e.2 log = (.ok e.2, log) := by
    intro e he
    obtain ⟨entry, _, rfl⟩ := List.mem_map.mp he
    exact restore_settled (.inr ⟨entry.2, rfl⟩)
  change restore (.map [(Datum.plain Wire.structName, Datum.plain s.kind.name),
      (Datum.plain Wire.structFields, .map s.toDocument)]) log = _
  rw [restore_posed name fields, kind, Reported.of, Reported.bind_ok (Reported.pure_apply _ log)]
  dsimp only
  rw [restoredFields, Reported.bind_ok (restoreValues_fixed fixed log), s.ofFields_toDocument]
  rfl

mutual

/-- What a reader finds in place of a value is restored to the value's canonical form. -/
theorem restore_received : (d : Datum) → d.isPortable = true → d.isFreeOfPoses = true →
    (log : Log) → restore d.received log = (.ok d.canonical, log)
  | .null, _, _, _ => rfl
  | .flag _, _, _, _ => rfl
  | .number _, _, _, _ => rfl
  | .text t, _, _, _ => by cases t <;> rfl
  | .struct s, _, _, log => restore_ofStruct s log
  | .list xs, portable, free, log => by
    rw [Datum.received, Datum.canonical, restore,
      Reported.bind_ok (restoreAll_received xs portable free log)]
    rfl
  | .tuple xs, portable, free, log => by
    rw [Datum.received, Datum.canonical, restore,
      Reported.bind_ok (restoreAll_received xs portable free log)]
    rfl
  | .map es, portable, free, log => by
    rw [Datum.received_of_isPortable portable, Datum.canonical]
    rw [Datum.isPortable, Bool.and_eq_true] at portable
    rw [Datum.isFreeOfPoses, Bool.and_eq_true, Bool.not_eq_true'] at free
    rw [restore_map free.1,
      Reported.bind_ok (restoreValues_received es portable.2 free.2 log)]
    rfl

theorem restoreAll_received : (xs : List Datum) → Datum.arePortable xs = true →
    Datum.areFreeOfPoses xs = true → (log : Log) →
    restoreAll (Datum.receivedAll xs) log = (.ok (Datum.canonicalAll xs), log)
  | [], _, _, _ => rfl
  | x :: r, portable, free, log => by
    rw [Datum.arePortable, Bool.and_eq_true] at portable
    rw [Datum.areFreeOfPoses, Bool.and_eq_true] at free
    rw [Datum.receivedAll, restoreAll,
      Reported.bind_ok (restore_received x portable.1 free.1 log),
      Reported.bind_ok (restoreAll_received r portable.2 free.2 log)]
    rfl

theorem restoreValues_received : (es : List (Datum × Datum)) →
    Datum.areEntriesPortable es = true → Datum.entriesFreeOfPoses es = true → (log : Log) →
    restoreValues (Datum.receivedEntries es) log = (.ok (Datum.canonicalEntries es), log)
  | [], _, _, _ => rfl
  | (k, v) :: r, portable, free, log => by
    rw [Datum.areEntriesPortable, Bool.and_eq_true, Bool.and_eq_true] at portable
    rw [Datum.entriesFreeOfPoses, Bool.and_eq_true] at free
    rw [Datum.receivedEntries, restoreValues,
      Reported.bind_ok (restore_received v portable.1.2 free.1 log),
      Reported.bind_ok (restoreValues_received r portable.2 free.2 log)]
    obtain ⟨s, key⟩ := Option.isSome_iff_exists.mp portable.1.1
    obtain ⟨t, rfl, _⟩ := Datum.eq_text_of_keyText? key
    rfl

end

end LegacyStruct

end EventEnvelope
