import EventEnvelope.Proofs.PublishedRecords
import EventEnvelope.Proofs.StandardPaths
import Mathlib.Data.List.Forall2

/-! Which envelopes can be built. The topic is looked up before anything else; then the actor, every
element and every metadata entry are made typed, and the draft is stamped. Main statement: the
builder returns exactly when the topic is known and each part is admitted by itself, and what it
returns holds the typed values of what it was given, in the given order. -/

namespace EventEnvelope

variable {α β : Type} {limit? : Option Nat}

/-- The value that an element of an event becomes: itself if it is one already, and a symbol if it
is another text that fits the limit. -/
inductive Datum.Becomes (limit? : Option Nat) : Datum → Value → Prop
  | flag (b : Bool) : Becomes limit? (.flag b) (.flag b)
  | number {n : Int} (amount : (Datum.number n).IsAmount) : Becomes limit? (.number n) (.number n)
  | address (a : Address) : Becomes limit? (.address a) (.address a)
  | symbol (x : Symbol) : Becomes limit? (.symbol x) (.symbol x)
  | word {t : Text} (untyped : Build.isUntypedText (.text t) = true)
      (word : (Datum.text t).IsWord limit?) : Becomes limit? (.text t) (.symbol ⟨t.shown⟩)

/-- An element that there is a value for. -/
def Datum.IsElement (limit? : Option Nat) (d : Datum) : Prop := ∃ v, d.Becomes limit? v

/-- The actor of an event, if one is given. -/
inductive Datum.BecomesActor : Datum → Option Address → Prop
  | absent : BecomesActor .null none
  | identity {d : Datum} {a : Address} (taken : Admission.address d = .ok a) :
      BecomesActor d (some a)

namespace Metadata

/-- An entry under a key of the vocabulary, with at least one element. -/
structure IsEntry (limit? : Option Nat) (entry : Datum × Datum) : Prop where
  key : ∃ k : MetadataKey, entry.1.content? = some (.proper k.id)
  values : ∃ ds, sequence? entry.2 = some ds ∧ ds ≠ [] ∧ ∀ d ∈ ds, d.IsElement limit?

/-- What an entry becomes: the values of its elements, in their order, under the key it names. -/
structure Becomes (limit? : Option Nat) (entry : Datum × Datum) (e : MetadataKey × List Value) :
    Prop where
  key : entry.1.content? = some (.proper e.1.id)
  values : ∃ ds, sequence? entry.2 = some ds ∧ List.Forall₂ (Datum.Becomes limit?) ds e.2

end Metadata

/-- The draft of an event from the parts that a caller gives. -/
structure Draft.Renders (d : Draft) (limit? : Option Nat) (topic : Topic) (actor : Datum)
    (data : List Datum) (metadata : List (Datum × Datum)) : Prop where
  topic : d.topic = topic
  actor : actor.BecomesActor d.actor
  data : List.Forall₂ (Datum.Becomes limit?) data d.data
  metadata : List.Forall₂ (Metadata.Becomes limit?) metadata d.metadata

/-- The surroundings, the time and the parts of an event, each of them fit for an envelope. -/
structure Surroundings.Admits (s : Surroundings) (actor : Datum) (data : List Datum)
    (metadata : List (Datum × Datum)) (time : Int) : Prop where
  actor : actor = .null ∨ actor.IsIdentity
  data : ∀ d ∈ data, d.IsElement s.symbolLimit?
  metadata : ∀ entry ∈ metadata, Metadata.IsEntry s.symbolLimit? entry
  identity : s.identity.IsIdentity
  time : 0 ≤ time
  version : 1 ≤ s.version

theorem Surroundings.Alike.symbolLimit {s s' : Surroundings} (h : s.Alike s') :
    s'.symbolLimit? = s.symbolLimit? := by
  unfold symbolLimit?
  rw [h.settings]

theorem Surroundings.Alike.times {s s' : Surroundings} {given : Datum} {n : Int} (h : s.Alike s')
    (timed : s.Times given n) : s'.Times given n := by
  cases timed with
  | given coerced => exact .given coerced
  | clock reading coerced =>
    refine .clock ?_ coerced
    rw [h.clock, h.ticks, reading]

namespace Admission

theorem isWord_untyped {t : Text} (untyped : Build.isUntypedText (.text t) = true) :
    (Datum.text t).IsWord limit? ↔ t.content ≠ "" ∧
      (∃ limit, limit? = some limit ∧ t.content.length ≤ limit) ∧
        ∀ p ∈ t.content.points, p.IsSymbolic := by
  cases t <;> first | rfl | cases untyped

theorem value_untyped_eq_ok_iff {limit : Nat} {t : Text} {v : Value}
    (untyped : Build.isUntypedText (.text t) = true) :
    value limit (.text t) = .ok v ↔ (Datum.text t).Becomes (some limit) v := by
  have interns : value limit (.text t) = (symbolOf limit t).map .symbol := by
    cases t <;> first | rfl | cases untyped
  have isWord : (Datum.text t).IsWord (some limit) ↔ _ := isWord_untyped untyped
  simp only [Option.some.injEq, exists_eq_left'] at isWord
  rw [interns]
  constructor
  · intro h
    obtain ⟨x, made, rfl⟩ := eq_ok_of_map h
    cases symbolOf_eq_ok made
    exact .word untyped (isWord.mpr ((symbolOf_ok_iff limit t).mp ⟨_, made⟩))
  · intro h
    cases h with
    | address a => cases untyped
    | symbol x => cases untyped
    | word _ word =>
      obtain ⟨x, made⟩ := (symbolOf_ok_iff limit t).mpr (isWord.mp word)
      cases symbolOf_eq_ok made
      rw [made]
      rfl

/-- Text is interned under the limit that was asked for; nothing else needs a limit. -/
theorem value_eq_ok_iff {n : Int} {d : Datum} {v : Value}
    (asked : Build.isUntypedText d = true → ∃ limit : Nat, n = limit ∧ limit? = some limit) :
    value n d = .ok v ↔ d.Becomes limit? v := by
  by_cases untyped : Build.isUntypedText d = true
  · obtain ⟨limit, rfl, rfl⟩ := asked untyped
    cases d with
    | text t => exact value_untyped_eq_ok_iff untyped
    | _ => cases untyped
  · constructor
    · intro h
      cases d with
      | flag b =>
        cases h
        exact .flag b
      | number m =>
        obtain ⟨k, read, rfl⟩ := eq_ok_of_map h
        cases (integer_eq_ok read).1
        exact .number ((integer_ok_iff _).mp ⟨m, read⟩)
      | text t =>
        cases t with
        | address a =>
          cases h
          exact .address a
        | symbol x =>
          cases h
          exact .symbol x
        | _ => exact absurd rfl untyped
      | _ => cases h
    · intro h
      cases h with
      | @number m amount =>
        obtain ⟨k, read⟩ := (integer_ok_iff _).mpr amount
        cases (integer_eq_ok read).1
        rw [value, read]
        rfl
      | word free _ => exact absurd free untyped
      | _ => rfl

end Admission

namespace Metadata

theorem key_eq_ok_iff {d : Datum} {k : MetadataKey} :
    key d = .ok k ↔ d.content? = some (.proper k.id) := by
  have named (s : String) : MetadataKey.ofId? s = some k ↔ s = k.id := by
    constructor
    · intro found
      have same := List.find?_some found
      exact (eq_of_beq same).symm
    · rintro rfl
      exact k.ofId?_id
  unfold key Datum.proper?
  cases d.content? with
  | none => simp
  | some t =>
    cases t with
    | broken s u rest => simp [CodeText.proper?]
    | proper s =>
      simp only [Option.bind_some, CodeText.proper?, Option.some.injEq, CodeText.proper.injEq,
        ← named]
      cases MetadataKey.ofId? s <;> simp

theorem ofEntries_eq_ok {es : Metadata} (distinct : (es.map Prod.fst).Nodup) :
    ofEntries es = .ok es := by
  have go (seen es : Metadata) (distinct : ((seen ++ es).map Prod.fst).Nodup) :
      ofEntries.go seen es = .ok (seen ++ es) := by
    induction es generalizing seen with
    | nil => rw [ofEntries.go, List.append_nil]
    | cons e r ih =>
      have apart : ¬(seen.any fun s => s.1 = e.1) = true := by
        rw [List.any_eq_true]
        rintro ⟨x, hx, same⟩
        rw [List.map_append, List.nodup_append] at distinct
        exact distinct.2.2 _ (List.mem_map_of_mem hx) e.1 (by simp) (of_decide_eq_true same)
      rw [ofEntries.go, if_neg apart, ih (seen ++ [e]) (by simpa using distinct)]
      simp
  exact go [] es distinct

/-- The entries of a map, where no key stands twice, become entries under distinct keys. -/
theorem nodup_of_becomes {es : List (Datum × Datum)} {m : Metadata}
    (distinct : es.Pairwise fun e e' => Datum.same e.1 e'.1 = false)
    (h : List.Forall₂ (Becomes limit?) es m) : (m.map Prod.fst).Nodup := by
  induction h with
  | nil => exact List.nodup_nil
  | @cons entry e es m first rest ih =>
    rw [List.pairwise_cons] at distinct
    rw [List.map_cons, List.nodup_cons]
    refine ⟨?_, ih distinct.2⟩
    intro again
    obtain ⟨e', he', named⟩ := List.mem_map.mp again
    obtain ⟨entry', listed, becomes⟩ := exists_of_forall₂ rest he'
    obtain ⟨t, text, content⟩ := Datum.eq_text_of_content? first.key
    obtain ⟨t', text', content'⟩ := Datum.eq_text_of_content? becomes.key
    have apart := distinct.1 entry' listed
    rw [text, text', Datum.same_text, content, content', named] at apart
    simp at apart

end Metadata

namespace Build

variable {s : Surroundings} {P : Prop} {promised : α → Surroundings → Prop}

/-- A step that asks for nothing but the settings leaves surroundings that are alike. -/
theorem Settles.alike {x : Build α} (h : x.Settles s P promised) (asks : x.Asks) :
    x.Settles s P fun a s' => promised a s' ∧ s.Alike s' := by
  have alike := asks.alike s
  cases h with
  | returned run holds kept =>
    rw [run] at alike
    exact .returned run holds ⟨kept, alike⟩
  | refused run fails encodable => exact .refused run fails encodable

theorem Settles.map {x : Build α} {f : α → β} {promised' : β → Surroundings → Prop}
    (h : x.Settles s P promised) (kept : ∀ a s', promised a s' → promised' (f a) s') :
    Settles (x >>= fun a => pure (f a)) s P promised' :=
  (h.bind fun a s' _ holds => settles_pure (kept a s' holds)).congr (and_iff_left trivial)

theorem settles_value (d : Datum) (limited : s.symbolLimit? = limit?) :
    (value d).Settles s (d.IsElement limit?) fun v s' => d.Becomes limit? v ∧ s.Alike s' := by
  refine Settles.alike ?_ (asks_value d)
  have taken {n : Int} (s' : Surroundings)
      (asked : isUntypedText d = true → ∃ limit : Nat, n = limit ∧ limit? = some limit) :
      (admitted (Admission.value n d)).Settles s' (d.IsElement limit?) fun v _ =>
        d.Becomes limit? v := by
    have decided (v : Value) := Admission.value_eq_ok_iff (v := v) asked
    refine ((settles_admitted _ s').congr (exists_congr decided)).imp ?_
    rintro v _ _ ⟨made, _⟩
    exact (decided v).mp made
  subst limited
  unfold value
  cases untyped : isUntypedText d with
  | false => exact taken s (by simp [untyped])
  | true =>
    refine ((settles_limit s).bind fun n s' _ kept => taken s' fun _ => kept.1).congr
      (and_iff_right_of_imp ?_)
    rintro ⟨v, becomes⟩
    cases becomes with
    | word _ word =>
      obtain ⟨_, ⟨limit, inForce, _⟩, _⟩ := (Admission.isWord_untyped untyped).mp word
      exact ⟨limit, inForce⟩
    | _ => cases untyped

theorem settles_values (ds : List Datum) (limited : s.symbolLimit? = limit?) :
    (values ds).Settles s (∀ d ∈ ds, d.IsElement limit?) fun vs s' =>
      List.Forall₂ (Datum.Becomes limit?) ds vs ∧ s.Alike s' := by
  induction ds generalizing s with
  | nil => exact .returned rfl (by simp) ⟨.nil, .refl s⟩
  | cons d ds ih =>
    refine ((settles_value d limited).bind ?_).congr List.forall_mem_cons.symm
    rintro v s₁ _ ⟨becomes, alike⟩
    refine (ih (alike.symbolLimit.trans limited)).map ?_
    rintro vs s' ⟨others, alike'⟩
    exact ⟨.cons becomes others, alike.trans alike'⟩

theorem settles_metadataEntry (key : Datum) (ds : List Datum) (limited : s.symbolLimit? = limit?) :
    (metadataEntry key ds).Settles s
      ((∃ k : MetadataKey, key.content? = some (.proper k.id)) ∧ ds ≠ [] ∧
        ∀ d ∈ ds, d.IsElement limit?)
      fun e s' => key.content? = some (.proper e.1.id) ∧
        List.Forall₂ (Datum.Becomes limit?) ds e.2 ∧
        s.Alike s' := by
  refine ((settles_admitted (Metadata.key key) s).congr
    (exists_congr fun k => Metadata.key_eq_ok_iff)).bind ?_
  rintro k s₁ _ ⟨named, rfl⟩
  split
  · next none => exact .refused rfl (by simp_all) fun _ => ⟨_, rfl⟩
  · next some =>
    refine ((settles_values ds limited).map ?_).congr (by simp_all)
    rintro vs s' ⟨becomes, alike⟩
    exact ⟨Metadata.key_eq_ok_iff.mp named, becomes, alike⟩

theorem settles_metadataEntries (es : List (Datum × Datum)) (limited : s.symbolLimit? = limit?) :
    (metadataEntries es).Settles s (∀ entry ∈ es, Metadata.IsEntry limit? entry) fun m s' =>
      List.Forall₂ (Metadata.Becomes limit?) es m ∧ s.Alike s' := by
  induction es generalizing s with
  | nil => exact .returned rfl (by simp) ⟨.nil, .refl s⟩
  | cons entry es ih =>
    obtain ⟨key, mapped⟩ := entry
    unfold metadataEntries
    cases sequenced : Metadata.sequence? mapped with
    | none =>
      refine .refused rfl ?_ fun _ => ⟨_, rfl⟩
      intro all
      obtain ⟨ds, listed, _⟩ := (all _ List.mem_cons_self).values
      cases sequenced.symm.trans listed
    | some ds =>
      have entered : ((∃ k : MetadataKey, key.content? = some (.proper k.id)) ∧ ds ≠ [] ∧
          ∀ d ∈ ds, d.IsElement limit?) ↔ Metadata.IsEntry limit? (key, mapped) := by
        constructor
        · rintro ⟨named, filled⟩
          exact ⟨named, ds, sequenced, filled⟩
        · rintro ⟨named, ds', listed, filled⟩
          cases sequenced.symm.trans listed
          exact ⟨named, filled⟩
      refine (((settles_metadataEntry key ds limited).congr entered).bind ?_).congr
        List.forall_mem_cons.symm
      rintro e s₁ _ ⟨named, becomes, alike⟩
      refine (ih (alike.symbolLimit.trans limited)).map ?_
      rintro m s' ⟨others, alike'⟩
      exact ⟨.cons ⟨named, ds, sequenced, becomes⟩ others, alike.trans alike'⟩

/-- A map holds no key twice, so entries that are fit by themselves are fit together. -/
theorem settles_metadata {es : List (Datum × Datum)}
    (distinct : es.Pairwise fun e e' => Datum.same e.1 e'.1 = false)
    (limited : s.symbolLimit? = limit?) :
    (metadata (.map es)).Settles s (∀ entry ∈ es, Metadata.IsEntry limit? entry) fun m s' =>
      List.Forall₂ (Metadata.Becomes limit?) es m ∧ s.Alike s' := by
  refine ((settles_metadataEntries es limited).bind (Q := True) ?_).congr (and_iff_left trivial)
  rintro m s₁ _ ⟨becomes, alike⟩
  have collected := Metadata.ofEntries_eq_ok (Metadata.nodup_of_becomes distinct becomes)
  rw [collected]
  exact settles_pure ⟨becomes, alike⟩

theorem settles_actor (d : Datum) (s : Surroundings) :
    (actor d).Settles s (d = .null ∨ d.IsIdentity) fun a? s' => d.BecomesActor a? ∧ s' = s := by
  cases d with
  | null => exact .returned rfl (.inl rfl) ⟨.absent, rfl⟩
  | _ =>
    refine ((settles_admitted _ s).map ?_).congr ?_
    · rintro a s' ⟨taken, rfl⟩
      exact ⟨.identity taken, rfl⟩
    · simp [Admission.address_ok_iff]

theorem settles_draft (topic : Topic) (actor : Datum) {data : Datum} {ds : List Datum}
    {es : List (Datum × Datum)} (listed : data.elements? = some ds)
    (distinct : es.Pairwise fun e e' => Datum.same e.1 e'.1 = false)
    (limited : s.symbolLimit? = limit?) :
    (draft topic actor data (.map es)).Settles s ((actor = .null ∨ actor.IsIdentity) ∧
        (∀ d ∈ ds, d.IsElement limit?) ∧ ∀ entry ∈ es, Metadata.IsEntry limit? entry)
      fun d s' => d.Renders limit? topic actor ds es ∧ s.Alike s' := by
  refine (settles_actor actor s).bind ?_
  rintro a? s₁ _ ⟨acted, rfl⟩
  have elements : (Build.data data).Settles s₁ (∀ d ∈ ds, d.IsElement limit?) fun vs s' =>
      List.Forall₂ (Datum.Becomes limit?) ds vs ∧ s₁.Alike s' := by
    unfold Build.data
    rw [listed]
    exact settles_values ds limited
  refine elements.bind ?_
  rintro vs s₂ _ ⟨values, alike⟩
  refine (settles_metadata distinct (alike.symbolLimit.trans limited)).map ?_
  rintro m s' ⟨entries, alike'⟩
  exact ⟨⟨rfl, acted, values, entries⟩, alike.trans alike'⟩

/-- For a known topic, making the parts typed and stamping them settles whether all are admitted. -/
theorem settles_envelope {topic data given : Datum} {found : Topic} {ds : List Datum}
    {es : List (Datum × Datum)} {n : Int} (known : topic.topic? = some found) (actor : Datum)
    (listed : data.elements? = some ds)
    (distinct : es.Pairwise fun e e' => Datum.same e.1 e'.1 = false) (timed : s.Times given n) :
    (envelope topic actor data (.map es) given).Settles s (s.Admits actor ds es n) fun e s' =>
      (∃ (d : Draft) (emitter : Address), d.Renders s.symbolLimit? found actor ds es ∧
        Admission.address s.identity = .ok emitter ∧
        e = d.stamped emitter n.toNat s.version.toNat) ∧
      (given = .null → s'.ticks = s.ticks + 1) ∧ (given ≠ .null → s'.ticks = s.ticks) := by
  have admits : (True ∧ ((actor = .null ∨ actor.IsIdentity) ∧
        (∀ d ∈ ds, d.IsElement s.symbolLimit?) ∧
        ∀ entry ∈ es, Metadata.IsEntry s.symbolLimit? entry) ∧
      s.identity.IsIdentity ∧ 0 ≤ n ∧ 1 ≤ s.version) ↔ s.Admits actor ds es n := by
    constructor
    · rintro ⟨_, ⟨acted, elements, entries⟩, identity, time, version⟩
      exact ⟨acted, elements, entries, identity, time, version⟩
    · rintro ⟨acted, elements, entries, identity, time, version⟩
      exact ⟨trivial, ⟨acted, elements, entries⟩, identity, time, version⟩
  have named : (Build.topic topic).Settles s True fun t s' => t = found ∧ s' = s := by
    rw [topic_eq, known]
    exact .returned rfl trivial ⟨rfl, rfl⟩
  refine (named.bind ?_).congr admits
  rintro _ s _ ⟨rfl, rfl⟩
  refine (settles_draft _ actor listed distinct rfl).bind ?_
  rintro d s₁ _ ⟨renders, alike⟩
  refine ((settles_stamp d (alike.times timed)).congr
    (by rw [alike.identity, alike.version])).imp ?_
  rintro e s' _ ⟨⟨emitter, identified, made⟩, asked, unasked⟩
  rw [alike.identity] at identified
  rw [alike.version] at made
  refine ⟨⟨d, emitter, renders, identified, made⟩, fun absent => ?_, fun present => ?_⟩
  · rw [asked absent, alike.ticks]
  · rw [unasked present, alike.ticks]

/-- A failure that can be passed on is an encoding fault, or the settings cannot be read. -/
theorem Repeats.encoding_or_unreadable {x : Build α} {e : Failure} (h : x.Repeats)
    (refused : (x s).1 = .error e)
    (encodable : ∀ topic, ∃ fault, e.asEncoding topic = .encoding fault) :
    (∃ fault, e = .encoding fault) ∨
      ∃ faults, e = .invalid faults ∧ s.config.settings.1 = .error faults := by
  obtain ⟨fault, passed⟩ := encodable .transfer
  cases e with
  | encoding fault => exact .inl ⟨fault, rfl⟩
  | invalid faults => exact .inr ⟨faults, rfl, h.unread s faults refused⟩
  | _ => cases passed

end Build

/-- Settings under which a symbol has at most four characters. -/
def Config.brief : Config :=
  ⟨[], some ⟨"node", "test", "stellara_event", 4, "", "", 0, true, 0, "INFO", "json"⟩⟩

end EventEnvelope
