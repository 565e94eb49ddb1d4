import EventEnvelope.Proofs.Wire.Portable
import Mathlib.Data.List.Nodup

/-! What a reader of the binary form can find, whoever wrote the message. Main statements: every
value that is read is of this kind, and one that has a wire form itself is carried as it is. -/

namespace EventEnvelope

namespace Datum

def isWhole : Datum → Bool
  | null | flag _ | number _ | real _ | bytes _ | ext _ _ | timestamp _ _ => true
  | text (.plain _) | text (.address _) | text (.symbol _) => true
  | _ => false

/-- Entries under distinct keys of the kinds that a reader admits. -/
structure HasReadableKeys (es : List (Datum × Datum)) : Prop where
  readable : ∀ e ∈ es, Wire.isReadableKey e.1 = true
  distinct : (es.map Prod.fst).Nodup

/-- What stands in a message: values without parts, tuples, and maps whose keys were merged. -/
inductive IsFound : Datum → Prop
  | whole {d : Datum} (h : d.isWhole = true) : IsFound d
  | tuple {xs : List Datum} (parts : ∀ x ∈ xs, IsFound x) : IsFound (tuple xs)
  | map {es : List (Datum × Datum)} (keys : HasReadableKeys es)
      (values : ∀ e ∈ es, IsFound e.2) : IsFound (map es)

theorem isWhole_of_readable {k : Datum} (h : Wire.isReadableKey k = true) : k.isWhole = true := by
  cases k with
  | text t =>
    cases t with
    | plain s => rfl
    | _ => cases h
  | bytes bs => rfl
  | _ => cases h

/-- Keys of these kinds count as the same only when they are equal. -/
theorem same_iff_of_readable {a b : Datum} (ha : Wire.isReadableKey a = true)
    (hb : Wire.isReadableKey b = true) : same a b = true ↔ a = b := by
  unfold Wire.isReadableKey at ha hb
  split at ha
  · next s =>
    split at hb
    · simp [Text.content]
    · simp [same, sameLeaf, quantity?]
    · contradiction
  · next bs =>
    split at hb
    · simp [same, sameLeaf, quantity?]
    · simp [same, sameLeaf, quantity?]
    · contradiction
  · contradiction

namespace HasReadableKeys

variable {es m : List (Datum × Datum)} {k : Datum}

theorem of_keys (h : HasReadableKeys es) (keys : m.map Prod.fst = es.map Prod.fst) :
    HasReadableKeys m := by
  constructor
  · intro e he
    have listed : e.1 ∈ es.map Prod.fst := keys ▸ List.mem_map_of_mem he
    obtain ⟨e', he', same⟩ := List.mem_map.mp listed
    exact same ▸ h.readable e' he'
  · exact keys ▸ h.distinct

theorem insert (h : HasReadableKeys es) (hk : Wire.isReadableKey k = true) (v : Datum) :
    HasReadableKeys (insert es k v) := by
  unfold Datum.insert
  split
  · exact h.of_keys (map_fst_update fun _ _ => rfl)
  · next apart =>
    constructor
    · intro e he
      rcases List.mem_append.mp he with he | he
      · exact h.readable e he
      · rw [List.mem_singleton.mp he]
        exact hk
    · refine nodup_map_fst_concat h.distinct fun e he equal => apart ?_
      exact List.any_eq_true.mpr ⟨e, he, (same_iff_of_readable (h.readable e he) hk).mpr equal⟩

end HasReadableKeys

theorem forall_insert {P : Datum → Prop} {es : List (Datum × Datum)} {k v : Datum}
    (h : ∀ e ∈ es, P e.2) (hv : P v) : ∀ e ∈ insert es k v, P e.2 := by
  unfold Datum.insert
  split
  · intro e he
    obtain ⟨e', he', rfl⟩ := List.mem_map.mp he
    split
    · exact hv
    · exact h e' he'
  · intro e he
    rcases List.mem_append.mp he with he | he
    · exact h e he
    · rw [List.mem_singleton.mp he]
      exact hv

/-- A map of what was read is found, whatever keys were repeated. -/
theorem isFound_ofEntries {es : List (Datum × Datum)}
    (h : ∀ e ∈ es, Wire.isReadableKey e.1 = true ∧ IsFound e.2) : IsFound (map (ofEntries es)) := by
  suffices merged : ∀ m, HasReadableKeys m → (∀ e ∈ m, IsFound e.2) →
      IsFound (map (es.foldl (fun m e => insert m e.1 e.2) m)) from
    merged [] ⟨by simp, by simp⟩ (by simp)
  intro m keys values
  induction es generalizing m with
  | nil => exact .map keys values
  | cons e es ih =>
    have first := h e (by simp)
    exact ih (fun e' he => h e' (by simp [he])) _ (keys.insert first.1 e.2)
      (forall_insert values first.2)

theorem IsFound.elements {d : Datum} {xs : List Datum} (found : d.IsFound)
    (parts : d.elements? = some xs) : ∀ x ∈ xs, x.IsFound := by
  cases found with
  | whole h =>
    cases d with
    | text t =>
      cases parts
      intro x hx
      obtain ⟨c, _, rfl⟩ := List.mem_map.mp hx
      exact .whole rfl
    | bytes bs =>
      cases parts
      intro x hx
      obtain ⟨b, _, rfl⟩ := List.mem_map.mp hx
      exact .whole rfl
    | ext code bs =>
      cases parts
      intro x hx
      simp only [List.mem_cons, List.not_mem_nil, or_false] at hx
      rcases hx with rfl | rfl <;> exact .whole rfl
    | _ => simp [elements?, isWhole] at parts h
  | tuple found => cases parts; exact found
  | map keys values =>
    cases parts
    intro x hx
    obtain ⟨e, he, rfl⟩ := List.mem_map.mp hx
    exact .whole (isWhole_of_readable (keys.readable e he))

theorem IsFound.value {es : List (Datum × Datum)} (found : (Datum.map es).IsFound)
    {e : Datum × Datum} (h : e ∈ es) : e.2.IsFound := by
  cases found with
  | whole h => simp [isWhole] at h
  | map _ values => exact values e h

end Datum

namespace Wire

section Reading

variable {α β : Type}

/-- Whatever is read, if anything is, has the property. -/
def Read.Ensures (x : Read α) (P : α → Prop) : Prop :=
  ∀ bs a rest, x bs = .ok (a, rest) → P a

theorem Read.Ensures.bind {x : Read α} {f : α → Read β} {P : α → Prop} {Q : β → Prop}
    (first : x.Ensures P) (rest : ∀ a, P a → (f a).Ensures Q) : Read.Ensures (x >>= f) Q := by
  intro bs b left h
  cases read : x bs with
  | error fault =>
    rw [Read.bind_error read] at h
    cases h
  | ok r =>
    rw [Read.bind_ok read] at h
    exact rest r.1 (first bs r.1 r.2 read) r.2 b left h

theorem Read.ensures_pure {P : α → Prop} {a : α} (h : P a) : Read.Ensures (pure a) P := by
  intro bs b rest run
  cases run
  exact h

theorem Read.ensures_refuse {P : α → Prop} (fault : DecodeFault) :
    Read.Ensures (refuse fault) P := by
  intro bs a rest run
  cases run

theorem Read.ensures_any (x : Read α) : x.Ensures fun _ => True := fun _ _ _ _ => trivial

end Reading

/-- A head that gives out a whole value gives out one without parts. -/
def Head.IsSound : Head → Prop
  | .whole d => d.isWhole = true
  | _ => True

theorem isWhole_of_extValue {code : Int} {body : Bytes} {d : Datum}
    (h : extValue code body = .ok d) : d.isWhole = true := by
  unfold extValue timestamp timestampOf ofExt at h
  repeat' split at h
  all_goals first | contradiction | (cases h; rfl)

theorem sound_extBody (length : Nat) : (extBody length).Ensures Head.IsSound := by
  unfold extBody
  refine (Read.ensures_any _).bind fun code _ => (Read.ensures_any _).bind fun body _ => ?_
  split
  · next d known => exact Read.ensures_pure (isWhole_of_extValue known)
  · exact Read.ensures_refuse _

theorem sound_textBody (length : Nat) : (textBody length).Ensures Head.IsSound := by
  refine (Read.ensures_any _).bind fun bs _ => ?_
  split
  · exact Read.ensures_pure rfl
  · exact Read.ensures_refuse _

theorem sound_headOf (tag : Nat) : (headOf tag).Ensures Head.IsSound := by
  have numbers (width : Nat) : (unsignedHead width).Ensures Head.IsSound ∧
      (signedHead width).Ensures Head.IsSound :=
    ⟨(Read.ensures_any _).bind fun _ _ => Read.ensures_pure rfl,
      (Read.ensures_any _).bind fun _ _ => Read.ensures_pure rfl⟩
  have sized {body : Nat → Read Head} (sound : ∀ n, (body n).Ensures Head.IsSound) (width : Nat) :
      (sized body width).Ensures Head.IsSound :=
    (Read.ensures_any _).bind fun n _ => sound n
  have bytes (length : Nat) : (bytesBody length).Ensures Head.IsSound :=
    (Read.ensures_any _).bind fun _ _ => Read.ensures_pure rfl
  have reals : single.Ensures Head.IsSound ∧ double.Ensures Head.IsSound :=
    ⟨(Read.ensures_any _).bind fun _ _ => Read.ensures_pure rfl,
      (Read.ensures_any _).bind fun _ _ => Read.ensures_pure rfl⟩
  have counts (width : Nat) : (counted .array width).Ensures Head.IsSound ∧
      (counted .map width).Ensures Head.IsSound :=
    ⟨(Read.ensures_any _).bind fun _ _ => Read.ensures_pure trivial,
      (Read.ensures_any _).bind fun _ _ => Read.ensures_pure trivial⟩
  unfold headOf
  repeat' split
  -- one goal for each tag, told apart by the reader that the tag calls
  all_goals with_reducible first
    | exact sound_textBody _
    | exact sound_extBody _
    | exact (numbers _).1
    | exact (numbers _).2
    | exact (counts _).1
    | exact (counts _).2
    | exact reals.1
    | exact reals.2
    | exact sized bytes _
    | exact sized sound_textBody _
    | exact sized sound_extBody _
    | exact Read.ensures_refuse _
    | refine Read.ensures_pure ?_
  all_goals first | rfl | trivial

theorem sound_head : head.Ensures Head.IsSound :=
  (Read.ensures_any _).bind fun tag _ => sound_headOf tag

theorem found_readAll {value : Read Datum} (found : value.Ensures Datum.IsFound) (n : Nat) :
    (readAll value n).Ensures fun ds => ∀ d ∈ ds, d.IsFound := by
  induction n with
  | zero => exact Read.ensures_pure (by simp)
  | succ n ih =>
    refine found.bind fun d hd => ih.bind fun ds hds => Read.ensures_pure ?_
    intro x hx
    rcases List.mem_cons.mp hx with rfl | hx
    · exact hd
    · exact hds x hx

theorem found_readEntries {value : Read Datum} (found : value.Ensures Datum.IsFound) (n : Nat) :
    (readEntries value n).Ensures fun es =>
      ∀ e ∈ es, isReadableKey e.1 = true ∧ e.2.IsFound := by
  induction n with
  | zero => exact Read.ensures_pure (by simp)
  | succ n ih =>
    refine (Read.ensures_any _).bind fun k _ => found.bind fun v hv => ?_
    split
    · next readable =>
      refine ih.bind fun es hes => Read.ensures_pure ?_
      intro e he
      rcases List.mem_cons.mp he with rfl | he
      · exact ⟨readable, hv⟩
      · exact hes e he
    · exact Read.ensures_refuse _

theorem found_read (total levels : Nat) : (read total levels).Ensures Datum.IsFound := by
  induction levels with
  | zero =>
    refine sound_head.bind fun h sound => ?_
    cases h with
    | whole d => exact Read.ensures_pure (.whole sound)
    | array count => exact Read.ensures_refuse _
    | map count => exact Read.ensures_refuse _
  | succ inner ih =>
    refine sound_head.bind fun h sound => ?_
    cases h with
    | whole d => exact Read.ensures_pure (.whole sound)
    | array count =>
      dsimp only
      split
      · exact Read.ensures_refuse _
      · exact (found_readAll ih count).bind fun ds hds => Read.ensures_pure (.tuple hds)
    | map count =>
      dsimp only
      split
      · exact Read.ensures_refuse _
      · exact (found_readEntries ih count).bind fun es hes =>
          Read.ensures_pure (Datum.isFound_ofEntries hes)

/-- Whatever bytes are read, the value is one that a reader can find. -/
theorem found_decode {bs : Bytes} {d : Datum} (h : decode bs = .ok d) : d.IsFound := by
  unfold decode at h
  split at h
  · contradiction
  · next found read =>
    cases h
    exact found_read _ _ bs d [] read
  · contradiction

section Trees

theorem ofData_cons_eq_ok {x : Datum} {xs : List Datum} {ws : List Wire}
    (h : ofData (x :: xs) = .ok ws) :
    ∃ w others, ofDatum x = .ok w ∧ ofData xs = .ok others ∧ ws = w :: others := by
  simp only [ofData] at h
  cases first : ofDatum x with
  | error e => rw [first] at h; cases h
  | ok w =>
    rw [first] at h
    cases rest : ofData xs with
    | error e => rw [rest] at h; cases h
    | ok others =>
      rw [rest] at h
      cases h
      exact ⟨w, others, rfl, rfl, rfl⟩

/-- Keys are written only if they have no parts. -/
theorem ofEntries_cons_eq_ok {k v : Datum} {es : List (Datum × Datum)} {ws : List (Wire × Wire)}
    (h : ofEntries ((k, v) :: es) = .ok ws) :
    ∃ kw vw others, ofDatum k = .ok kw ∧ ofDatum v = .ok vw ∧ kw.isKey = true ∧
      ofEntries es = .ok others ∧ ws = (kw, vw) :: others := by
  simp only [ofEntries] at h
  cases key : ofDatum k with
  | error e => rw [key] at h; cases h
  | ok kw =>
    cases value : ofDatum v with
    | error e => rw [key, value] at h; cases h
    | ok vw =>
      rw [key, value] at h
      dsimp only at h
      split at h
      · next leaf =>
        cases rest : ofEntries es with
        | error e => rw [rest] at h; cases h
        | ok others =>
          rw [rest] at h
          cases h
          exact ⟨kw, vw, others, rfl, rfl, leaf, rfl, rfl⟩
      · cases h

theorem ofData_ok {xs : List Datum} {ws : List Wire} (h : ofData xs = .ok ws) :
    ∀ x ∈ xs, ∃ w, ofDatum x = .ok w := by
  induction xs generalizing ws with
  | nil => simp
  | cons x xs ih =>
    obtain ⟨w, others, first, rest, _⟩ := ofData_cons_eq_ok h
    rw [List.forall_mem_cons]
    exact ⟨⟨w, first⟩, ih rest⟩

theorem ofEntries_ok {es : List (Datum × Datum)} {ws : List (Wire × Wire)}
    (h : ofEntries es = .ok ws) :
    ∀ e ∈ es, (∃ w, ofDatum e.1 = .ok w) ∧ ∃ w, ofDatum e.2 = .ok w := by
  induction es generalizing ws with
  | nil => simp
  | cons e es ih =>
    obtain ⟨kw, vw, others, key, value, _, rest, _⟩ := ofEntries_cons_eq_ok h
    rw [List.forall_mem_cons]
    exact ⟨⟨⟨kw, key⟩, vw, value⟩, ih rest⟩

theorem ofDatum_tuple_ok {xs : List Datum} {w : Wire} (h : ofDatum (.tuple xs) = .ok w) :
    ∀ x ∈ xs, ∃ w, ofDatum x = .ok w := by
  simp only [ofDatum] at h
  cases parts : ofData xs with
  | error e => rw [parts] at h; contradiction
  | ok ws => exact ofData_ok parts

theorem ofDatum_list_ok {xs : List Datum} {w : Wire} (h : ofDatum (.list xs) = .ok w) :
    ∀ x ∈ xs, ∃ w, ofDatum x = .ok w :=
  ofDatum_tuple_ok h

theorem ofDatum_map_ok {es : List (Datum × Datum)} {w : Wire} (h : ofDatum (.map es) = .ok w) :
    ∀ e ∈ es, (∃ w, ofDatum e.1 = .ok w) ∧ ∃ w, ofDatum e.2 = .ok w := by
  simp only [ofDatum] at h
  cases parts : ofEntries es with
  | error e => rw [parts] at h; contradiction
  | ok ws => exact ofEntries_ok parts

end Trees

end Wire

namespace Datum

/-- Entries under distinct plain texts. -/
structure HasPlainKeys (es : List (Datum × Datum)) : Prop where
  plain : ∀ e ∈ es, ∃ s, e.1 = plain s
  distinct : (es.map Prod.fst).Nodup

/-- Besides plain texts only byte strings are read as keys. -/
theorem HasReadableKeys.plain_of_apart {es : List (Datum × Datum)} (h : HasReadableKeys es)
    (apart : ∀ e ∈ es, ∀ bs, e.1 ≠ .bytes bs) : HasPlainKeys es := by
  refine ⟨fun e he => ?_, h.distinct⟩
  have readable := h.readable e he
  unfold Wire.isReadableKey at readable
  split at readable
  · next s key => exact ⟨s, key⟩
  · next bs key => exact absurd key (apart e he bs)
  · contradiction

/-- Byte strings have no wire form. -/
theorem HasReadableKeys.plain {es : List (Datum × Datum)} (h : HasReadableKeys es)
    (written : ∀ e ∈ es, ∃ w, Wire.ofDatum e.1 = .ok w) : HasPlainKeys es := by
  refine h.plain_of_apart fun e he bs key => ?_
  obtain ⟨w, tree⟩ := written e he
  rw [key] at tree
  cases tree

namespace HasPlainKeys

variable {es : List (Datum × Datum)}

theorem distinct_contents (h : HasPlainKeys es) : (es.map fun e => e.1.content?).Nodup := by
  have contents : (es.map fun e => e.1.content?) = (es.map Prod.fst).map content? := by
    rw [List.map_map]
    rfl
  rw [contents]
  refine List.Nodup.map_on ?_ h.distinct
  intro a ha b hb equal
  obtain ⟨e, he, rfl⟩ := List.mem_map.mp ha
  obtain ⟨f, hf, rfl⟩ := List.mem_map.mp hb
  obtain ⟨s, hs⟩ := h.plain e he
  obtain ⟨t, ht⟩ := h.plain f hf
  rw [hs, ht] at equal ⊢
  exact congrArg Datum.plain (Option.some.inj equal)

/-- A plain key travels as what it is. -/
theorem distinct_keyTexts (h : HasPlainKeys es) : (es.map fun e => e.1.keyText?).Nodup := by
  have same : (es.map fun e => e.1.keyText?) = es.map fun e => e.1.content? := by
    refine List.map_congr_left fun e he => ?_
    obtain ⟨s, hs⟩ := h.plain e he
    rw [hs]
    rfl
  exact same ▸ h.distinct_contents

theorem isPortable_map (h : HasPlainKeys es) (values : ∀ e ∈ es, e.2.isPortable = true) :
    (map es).isPortable = true := by
  rw [isPortable, areEntriesPortable_eq_all, Bool.and_eq_true, decide_eq_true_eq]
  refine ⟨h.distinct_keyTexts, List.all_eq_true.mpr fun e he => ?_⟩
  obtain ⟨s, hs⟩ := h.plain e he
  rw [hs, values e he]
  rfl

theorem received_map (h : HasPlainKeys es) :
    (map es).received = map (es.map fun e => (e.1, e.2.received)) := by
  have keys (e : Datum × Datum) (he : e ∈ es) : e.1.keyText?.isSome = true := by
    obtain ⟨s, hs⟩ := h.plain e he
    rw [hs]
    rfl
  rw [Datum.received_map h.distinct_keyTexts keys, receivedEntries_eq_map]
  refine congrArg map (List.map_congr_left fun e he => ?_)
  obtain ⟨s, hs⟩ := h.plain e he
  rw [hs]
  rfl

end HasPlainKeys

/-- A value that was found and has a wire form is found again as it is. -/
theorem IsFound.steady {d : Datum} (found : d.IsFound) {w : Wire} (tree : Wire.ofDatum d = .ok w) :
    d.IsSteady := by
  induction found generalizing w with
  | @whole d h =>
    cases d with
    | null => exact ⟨rfl, rfl⟩
    | flag b => exact ⟨rfl, rfl⟩
    | number n => exact ⟨rfl, rfl⟩
    | text t => cases t <;> first | contradiction | exact ⟨rfl, rfl⟩
    | _ => contradiction
  | tuple _ ih =>
    refine IsSteady.tuple fun x hx => ?_
    obtain ⟨w, part⟩ := Wire.ofDatum_tuple_ok tree x hx
    exact ih x hx part
  | @map es keys _ ih =>
    have written := Wire.ofDatum_map_ok tree
    have plain := keys.plain fun e he => (written e he).1
    have values (e : Datum × Datum) (he : e ∈ es) : e.2.IsSteady := by
      obtain ⟨w, value⟩ := (written e he).2
      exact ih e he value
    have same (e : Datum × Datum) (he : e ∈ es) : (e.1, e.2.received) = e := by
      rw [(values e he).received]
    constructor
    · exact plain.isPortable_map fun e he => (values e he).portable
    · rw [plain.received_map, List.map_congr_left same, List.map_id']

end Datum

theorem Wire.ofDatum_of_encode {d : Datum} {bs : Bytes} (h : encode d = .ok bs) :
    ∃ w, ofDatum d = .ok w := by
  unfold encode at h
  split at h
  · contradiction
  · next w tree => exact ⟨w, tree⟩

/-- A portable value that was written is read as what it stands for. -/
theorem Datum.decode_encode_received {d : Datum} {bs : Bytes} (portable : d.isPortable = true)
    (written : Wire.encode d = .ok bs) : Wire.decode bs = .ok d.received :=
  (Wire.encode_portable portable).of_ok written

end EventEnvelope
