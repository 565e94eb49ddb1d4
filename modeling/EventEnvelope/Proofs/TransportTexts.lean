import EventEnvelope.Proofs.LogCounts
import EventEnvelope.Proofs.PublishedRecords

/-! Addresses and symbols on the transport. A text becomes an address or a symbol only when it is
fit for one, but a caller may hand in one that is made already, and so may the host. Main statement:
every address in a record that a session tries to publish is non-empty and every symbol keeps to the
alphabet and the length limit, unless the call was handed the very same one. Left aside are the root
topic, which the emitter was made with, and what a handed text shows instead of itself. -/

namespace EventEnvelope

namespace Value

def texts : Value → List Text
  | symbol x => [.symbol x]
  | address a => [.address a]
  | _ => []

end Value

namespace Datum

mutual

/-- The texts in a value, at any depth. -/
def texts : Datum → List Text
  | text t => [t]
  | list xs | tuple xs | set xs => textsOfAll xs
  | map es => textsOfEntries es
  | struct s => s.values.flatMap Value.texts
  | _ => []

def textsOfAll : List Datum → List Text
  | [] => []
  | x :: r => texts x ++ textsOfAll r

def textsOfEntries : List (Datum × Datum) → List Text
  | [] => []
  | (k, v) :: r => texts k ++ (texts v ++ textsOfEntries r)

end

@[simp] theorem texts_toDatum (v : Value) : v.toDatum.texts = v.texts := by
  cases v <;> rfl

theorem textsOfAll_eq (xs : List Datum) : textsOfAll xs = xs.flatMap texts := by
  induction xs with
  | nil => rfl
  | cons x r ih => rw [textsOfAll, ih, List.flatMap_cons]

theorem textsOfEntries_eq (es : List (Datum × Datum)) :
    textsOfEntries es = es.flatMap fun e => e.1.texts ++ e.2.texts := by
  induction es with
  | nil => rfl
  | cons e r ih => rw [textsOfEntries, ih, List.flatMap_cons, List.append_assoc]

@[simp] theorem texts_tuple (xs : List Datum) : (tuple xs).texts = xs.flatMap texts :=
  textsOfAll_eq xs

@[simp] theorem texts_map (es : List (Datum × Datum)) :
    (map es).texts = es.flatMap fun e => e.1.texts ++ e.2.texts :=
  textsOfEntries_eq es

/-- An element that is a text stands in the value that yields it, or is a character. -/
theorem mem_texts_of_elements {d : Datum} {xs : List Datum} {t : Text}
    (listed : d.elements? = some xs) (own : .text t ∈ xs) :
    t ∈ d.texts ∨ ∃ s, t = .plain s := by
  have nested (h : .text t ∈ xs) : t ∈ textsOfAll xs := by
    rw [textsOfAll_eq]
    exact List.mem_flatMap.mpr ⟨_, h, List.mem_singleton_self t⟩
  cases d with
  | list ys | tuple ys | set ys =>
    cases listed
    exact .inl (nested own)
  | map es =>
    cases listed
    obtain ⟨e, entered, key⟩ := List.mem_map.mp own
    left
    rw [texts_map]
    refine List.mem_flatMap.mpr ⟨e, entered, List.mem_append_left _ ?_⟩
    rw [key]
    exact List.mem_singleton_self t
  | text t' =>
    cases listed
    obtain ⟨c, _, same⟩ := List.mem_map.mp own
    cases same
    exact .inr ⟨_, rfl⟩
  | bytes bs =>
    cases listed
    obtain ⟨b, _, same⟩ := List.mem_map.mp own
    cases same
  | struct s =>
    cases listed
    obtain ⟨e, _, same⟩ := List.mem_map.mp own
    cases same
  | ext code bs =>
    cases listed
    simp at own
  | _ => cases listed

theorem Offers.mem_texts {d : Datum} {t : Text} (h : d.Offers t) :
    t ∈ d.texts ∨ ∃ s, t = .plain s := by
  cases h with
  | itself => exact .inl (List.mem_singleton_self t)
  | element listed own => exact mem_texts_of_elements listed own
  | @mapped es entry xs _ entered listed own =>
    refine (mem_texts_of_elements listed own).imp_left fun inner => ?_
    rw [texts_map]
    exact List.mem_flatMap.mpr ⟨entry, entered, List.mem_append_right _ inner⟩

end Datum

/-- A symbol that keeps to the alphabet and to a length limit in force. -/
def Symbol.IsWellFormed (x : Symbol) (limit? : Option Nat) : Prop :=
  x.text ≠ "" ∧ (∀ p ∈ x.text.points, p.IsSymbolic) ∧
    ∃ limit, limit? = some limit ∧ x.text.length ≤ limit

/-- No handed text shows this one instead of itself. The classes of some texts do so: a member of a
topic group shows its name in full, and so do the members of most vocabularies of a caller. -/
def CodeText.IsApart (s : CodeText) (handed : List Text) : Prop :=
  ∀ t ∈ handed, t.shown ≠ t.content → s ≠ t.shown

/-- A text as it may stand in a record, given the texts that a call was handed. What one of these
shows instead of itself is left aside. -/
def Text.IsSound (limit? : Option Nat) (handed : List Text) : Text → Prop
  | address a => a.text.IsApart handed → a.text ≠ "" ∨ .address a ∈ handed
  | symbol x => x.text.IsApart handed → x.IsWellFormed limit? ∨ .symbol x ∈ handed
  | _ => True

theorem Text.isSound_of_handed {limit? : Option Nat} {handed : List Text} {t : Text}
    (h : t ∈ handed) : t.IsSound limit? handed := by
  cases t with
  | address a => exact fun _ => .inr h
  | symbol x => exact fun _ => .inr h
  | _ => trivial

/-- Every text in the value is sound, at any depth. -/
def Datum.IsSound (limit? : Option Nat) (handed : List Text) (d : Datum) : Prop :=
  ∀ t ∈ d.texts, t.IsSound limit? handed

def Value.IsSound (limit? : Option Nat) (handed : List Text) (v : Value) : Prop :=
  ∀ t ∈ v.texts, t.IsSound limit? handed

section Sound

variable {limit? : Option Nat} {handed : List Text}

namespace Datum

theorem isSound_of_handed {d : Datum} (h : ∀ t ∈ d.texts, t ∈ handed) : d.IsSound limit? handed :=
  fun t ht => Text.isSound_of_handed (h t ht)

@[simp] theorem isSound_null : null.IsSound limit? handed := by
  simp [IsSound, texts]

@[simp] theorem isSound_number (n : Int) : (number n).IsSound limit? handed := by
  simp [IsSound, texts]

@[simp] theorem isSound_text (t : Text) :
    (text t).IsSound limit? handed ↔ t.IsSound limit? handed := by
  simp [IsSound, texts]

@[simp] theorem isSound_toDatum (v : Value) :
    v.toDatum.IsSound limit? handed ↔ v.IsSound limit? handed := by
  rw [IsSound, texts_toDatum, Value.IsSound]

@[simp] theorem isSound_tuple (xs : List Datum) :
    (tuple xs).IsSound limit? handed ↔ ∀ x ∈ xs, x.IsSound limit? handed := by
  simp only [IsSound, texts_tuple, List.mem_flatMap]
  exact ⟨fun h x hx t ht => h t ⟨x, hx, ht⟩, fun h t ⟨x, hx, ht⟩ => h x hx t ht⟩

@[simp] theorem isSound_map (es : List (Datum × Datum)) :
    (map es).IsSound limit? handed ↔
      ∀ e ∈ es, e.1.IsSound limit? handed ∧ e.2.IsSound limit? handed := by
  simp only [IsSound, texts_map, List.mem_flatMap, List.mem_append]
  constructor
  · intro h e he
    exact ⟨fun t ht => h t ⟨e, he, .inl ht⟩, fun t ht => h t ⟨e, he, .inr ht⟩⟩
  · rintro h t ⟨e, he, key | value⟩
    · exact (h e he).1 t key
    · exact (h e he).2 t value

theorem isSound_struct (s : LegacyStruct) :
    (struct s).IsSound limit? handed ↔ ∀ v ∈ s.values, v.IsSound limit? handed := by
  simp only [IsSound, texts, Value.IsSound, List.mem_flatMap]
  exact ⟨fun h v hv t ht => h t ⟨v, hv, ht⟩, fun h t ⟨v, hv, ht⟩ => h v hv t ht⟩

end Datum

/-- A text that is not left aside shows itself. -/
theorem Text.shown_eq_content {t : Text} (own : t ∈ handed ∨ ∃ s, t = .plain s)
    (apart : t.shown.IsApart handed) : t.shown = t.content := by
  rcases own with listed | ⟨s, rfl⟩
  · by_contra differ
    exact apart t listed differ rfl
  · rfl

namespace Admission

/-- An identity is made of a text that is not empty, or it was one already. -/
theorem isSound_of_address {t : Text} {a : Address} (taken : address (.text t) = .ok a)
    (own : t ∈ handed ∨ ∃ s, t = .plain s) : (Text.address a).IsSound limit? handed := by
  intro apart
  cases t with
  | address b =>
    cases taken
    exact .inr (own.resolve_right (by simp))
  | symbol x => cases taken
  | _ =>
    simp only [address, CodeText.isEmpty_iff] at taken
    split at taken
    · cases taken
    · next nonempty =>
      cases taken
      exact .inl (Text.shown_eq_content own apart ▸ nonempty)

/-- Interning checks the content of a text and yields what the text shows. -/
theorem isWellFormed_of_symbolOf {limit : Nat} {t : Text} {x : Symbol}
    (shows : t.shown = t.content) (h : symbolOf limit t = .ok x) :
    x.IsWellFormed (some limit) := by
  obtain ⟨nonempty, short, alphabet⟩ := (symbolOf_ok_iff limit t).mp ⟨x, h⟩
  rw [symbolOf_eq_ok h, shows]
  exact ⟨nonempty, alphabet, limit, rfl, short⟩

theorem symbolOf_of_interned? {t : Text} {x : Symbol}
    (h : (Datum.text t).interned? limit? = some x) :
    t = .symbol x ∨ ∃ limit : Nat, limit? = some limit ∧ symbolOf limit t = .ok x := by
  cases t with
  | symbol y =>
    cases h
    exact .inl rfl
  | _ =>
    obtain ⟨limit, inForce, made⟩ := Option.bind_eq_some_iff.mp h
    exact .inr ⟨limit, inForce, eq_ok_of_toOption made⟩

/-- A symbol is interned within the alphabet and the limit, or it was one already. -/
theorem isSound_of_interned {t : Text} {x : Symbol}
    (interned : (Datum.text t).interned? limit? = some x) (own : t ∈ handed ∨ ∃ s, t = .plain s) :
    (Text.symbol x).IsSound limit? handed := by
  intro apart
  rcases symbolOf_of_interned? interned with rfl | ⟨limit, rfl, made⟩
  · exact .inr (own.resolve_right (by simp))
  · rw [symbolOf_eq_ok made] at apart
    exact .inl (isWellFormed_of_symbolOf (Text.shown_eq_content own apart) made)

end Admission

/-- What was admitted from handed texts is sound. -/
theorem Value.Admitted.isSound {v : Value} {offered : Text → Prop} (h : v.Admitted limit? offered)
    (own : ∀ t, offered t → t ∈ handed ∨ ∃ s, t = .plain s) : v.IsSound limit? handed := by
  cases h with
  | flag b => simp [IsSound, texts]
  | number range => simp [IsSound, texts]
  | address offers taken =>
    exact List.forall_mem_singleton.mpr (Admission.isSound_of_address taken (own _ offers))
  | symbol offers interned =>
    exact List.forall_mem_singleton.mpr (Admission.isSound_of_interned interned (own _ offers))

/-- The payload of a draft of admitted values is sound once the emitter is. -/
theorem Draft.IsAdmitted.isSound_payload {d : Draft} {offered : Text → Prop}
    (h : d.IsAdmitted limit? offered) (own : ∀ t, offered t → t ∈ handed ∨ ∃ s, t = .plain s)
    {emitter : Address} (identity : (Text.address emitter).IsSound limit? handed)
    (timestamp version : Nat) :
    (d.stamped emitter timestamp version).payload.IsSound limit? handed := by
  have admitted {v : Value} (h : v.Admitted limit? offered) : v.toDatum.IsSound limit? handed :=
    (Datum.isSound_toDatum v).mpr (h.isSound own)
  have actor : d.actorDatum.IsSound limit? handed := by
    unfold Draft.actorDatum
    cases acted : d.actor with
    | none => exact Datum.isSound_null
    | some x => exact admitted (h.actor x acted)
  have data : (Datum.tuple (d.data.map Value.toDatum)).IsSound limit? handed := by
    rw [Datum.isSound_tuple, List.forall_mem_map]
    exact fun v hv => admitted (h.data v hv)
  have metadata : (Envelope.metadataMap d.metadata.toEntries).IsSound limit? handed := by
    rw [Envelope.metadataMap, Metadata.toEntries, Datum.isSound_map, List.forall_mem_map,
      List.forall_mem_map]
    refine fun entry he => ⟨(Datum.isSound_text _).mpr trivial, ?_⟩
    rw [Datum.isSound_tuple, List.forall_mem_map]
    exact fun v hv => admitted ((h.metadata entry he).2 v hv)
  rw [Envelope.payload, Datum.isSound_tuple]
  simp only [Draft.stamped, List.forall_mem_cons]
  exact ⟨(Datum.isSound_text _).mpr identity, actor, data, metadata, Datum.isSound_number _,
    Datum.isSound_number _, by simp⟩

theorem Coerce.texts_of_value {f : Field} {d : Datum} {v : Value} (h : value f d = .ok v) :
    ∀ t ∈ v.texts, t ∈ d.texts := by
  unfold value at h
  split at h
  · split at h
    · cases h
      exact fun t ht => ht
    · cases h
  · split at h
    · cases h
      exact fun t ht => ht
    · cases h
  · obtain ⟨b, _, rfl⟩ := eq_ok_of_map h
    simp [Value.texts]
  · split at h
    · split at h
      · cases h
      · cases h
        simp [Value.texts]
    · cases h

namespace LegacyKind

variable {doc : Document}

theorem isSound_of_readField {f : Field} {r : { v : Value // f.fits v = true }}
    (sound : ∀ e ∈ doc, e.2.IsSound limit? handed) (h : readField doc f = .ok r) :
    r.1.IsSound limit? handed := by
  cases found : Datum.get? doc f.name with
  | some d =>
    obtain ⟨e, listed, rfl⟩ := Datum.mem_of_get? found
    exact fun t ht => sound e listed t (Coerce.texts_of_value (value_of_readField found h) t ht)
  | none =>
    unfold readField at h
    simp only [found] at h
    split at h
    · next v default =>
      cases h
      -- the one value that may stand for a field left out is a number
      cases f <;> cases default
      simp [Value.IsSound, Value.texts]
    · cases h

theorem isSound_of_readFields {fs : List Field}
    {r : { vs : List Value // Field.fitsAll fs vs = true }}
    (sound : ∀ e ∈ doc, e.2.IsSound limit? handed) (h : readFields doc fs = .ok r) :
    ∀ v ∈ r.1, v.IsSound limit? handed := by
  induction fs with
  | nil =>
    cases h
    simp
  | cons f fs ih =>
    obtain ⟨v, vs, first, rest, made⟩ := Checked.both_eq_ok h
    subst made
    rw [List.forall_mem_cons]
    exact ⟨isSound_of_readField sound first, ih rest⟩

/-- A struct holds no text but those it is filled with. -/
theorem isSound_of_read {kind : LegacyKind} {s : LegacyStruct}
    (sound : ∀ e ∈ doc, e.2.IsSound limit? handed) (h : kind.read doc = .ok s) :
    (Datum.struct s).IsSound limit? handed := by
  obtain ⟨r, fields, rfl⟩ := eq_ok_of_map h
  exact (Datum.isSound_struct _).mpr
    (isSound_of_readFields sound (Document.closed_eq_ok fields).1)

end LegacyKind

namespace Layout

variable {a : Assignment} {now : Datum} (own : ∀ f v, a f = some v → v.IsSound limit? handed)

include own

theorem isSound_legacyChannel (l : Layout) :
    ∀ d ∈ l.legacyChannel a, d.IsSound limit? handed := by
  rw [legacyChannel, List.forall_mem_cons]
  refine ⟨(Datum.isSound_text _).mpr trivial, fun d hd => ?_⟩
  obtain ⟨f, _, h⟩ := List.mem_filterMap.mp hd
  obtain ⟨v, value, rfl⟩ := Option.map_eq_some_iff.mp h
  exact (Datum.isSound_toDatum v).mpr (own f v value)

theorem isSound_rowValue {f : Field} {d : Datum} (h : rowValue a f = some d) :
    d.IsSound limit? handed := by
  unfold rowValue at h
  split at h
  · cases h
    exact (Datum.isSound_text _).mpr trivial
  · obtain ⟨v, value, rfl⟩ := Option.map_eq_some_iff.mp h
    exact (Datum.isSound_toDatum v).mpr (own _ v value)

theorem isSound_structFields (timed : now.IsSound limit? handed) (kind : LegacyKind) :
    ∀ e ∈ structFields a now kind, e.2.IsSound limit? handed := by
  intro e he
  obtain ⟨f, _, h⟩ := List.mem_filterMap.mp he
  split at h
  · cases h
    exact timed
  · obtain ⟨v, value, rfl⟩ := Option.map_eq_some_iff.mp h
    exact (Datum.isSound_toDatum v).mpr (own f v value)

theorem isSound_legacyPayload (timed : now.IsSound limit? handed) {p : LegacyPayload} {d : Datum}
    (h : legacyPayload a now p = .ok d) : d.IsSound limit? handed := by
  cases p with
  | single f =>
    cases h
    cases value : a f with
    | none => exact Datum.isSound_null
    | some v => exact (Datum.isSound_toDatum v).mpr (own f v value)
  | row fs =>
    cases h
    rw [Datum.isSound_tuple]
    intro d hd
    rcases List.mem_append.mp hd with listed | last
    · obtain ⟨f, _, h⟩ := List.mem_filterMap.mp listed
      exact isSound_rowValue own h
    · rw [List.mem_singleton.mp last]
      exact timed
  | struct kind =>
    obtain ⟨s, read, rfl⟩ := eq_ok_of_map h
    exact LegacyKind.isSound_of_read (isSound_structFields own timed kind) read

end Layout

end Sound

namespace Publication

/-- What the channel of a record names, below the root topic of the standardized channel. -/
def keys (p : Publication) : List Datum :=
  match p.channel with
  | .text (.symbol _) :: keys => keys
  | keys => keys

/-- All that stands in a record is sound. -/
structure IsSound (p : Publication) (limit? : Option Nat) (handed : List Text) : Prop where
  keys : ∀ d ∈ p.keys, d.IsSound limit? handed
  payload : p.payload.IsSound limit? handed

end Publication

/-- The texts that the host hands over: its identity and the first reading of the clock. -/
def Surroundings.texts (s : Surroundings) : List Text :=
  s.identity.texts ++ match s.clock s.ticks with
    | .value d => d.texts
    | .raised _ => []

namespace Request

/-- The texts that a call is handed, by the caller at any depth of an argument and by the host. -/
def handed (q : Request) (s : Surroundings) : List Text :=
  q.arguments.flatMap Datum.texts ++ s.texts

variable {q : Request} {s s' : Surroundings}

theorem Offers.mem_handed {t : Text} (h : q.Offers t) :
    t ∈ q.handed s ∨ ∃ s, t = .plain s := by
  obtain ⟨d, listed, offers⟩ := h
  refine offers.mem_texts.imp_left fun own => List.mem_append_left _ ?_
  exact List.mem_flatMap.mpr ⟨d, listed, own⟩

theorem isSound_emitter {emitter : Address}
    (identified : Admission.address s.identity = .ok emitter) :
    (Text.address emitter).IsSound s.symbolLimit? (q.handed s) := by
  cases own : s.identity with
  | text t =>
    refine Admission.isSound_of_address (own ▸ identified) (.inl ?_)
    refine List.mem_append_right _ (List.mem_append_left _ ?_)
    rw [own]
    exact List.mem_singleton_self t
  | _ =>
    rw [own] at identified
    cases identified

theorem Stamps.isSound {e : Envelope} {d : Draft} {emitter : Address} (h : q.Stamps s e d emitter)
    (root : Symbol) : (e.publication root).IsSound s.symbolLimit? (q.handed s) := by
  constructor
  · simp [Publication.keys, Envelope.publication, Datum.symbol, Datum.topic, Text.IsSound]
  · rw [h.standard]
    exact h.admitted.isSound_payload (fun _ => Offers.mem_handed) (isSound_emitter h.identified) _ _

theorem isSound_older {op : Operation} {positional : List Datum} {named : List (String × Datum)}
    {args : CallerArguments} {e : Emission} (bound : op.bind positional named = .ok args)
    (built : op.build args s = (.ok e, s')) :
    e.legacy.IsSound s.symbolLimit? ((operation op positional named).handed s) := by
  obtain ⟨m, emitter, now, made⟩ := Operation.build_makes built
  have own (f : Field) (v : Value) (h : op.assignment s.symbolLimit? args f = some v) :
      v.IsSound s.symbolLimit? ((operation op positional named).handed s) :=
    (assignment_admitted bound h).isSound fun _ => Offers.mem_handed
  have timed : now.IsSound s.symbolLimit? ((operation op positional named).handed s) := by
    refine Datum.isSound_of_handed fun t ht => List.mem_append_right _ ?_
    rw [Surroundings.texts, made.reading]
    exact List.mem_append_right _ ht
  refine ⟨fun d hd => ?_, Layout.isSound_legacyPayload own timed made.payload⟩
  refine Layout.isSound_legacyChannel own op.layout d ?_
  rw [← made.channel]
  unfold Publication.keys at hd
  split at hd
  · next channel =>
    rw [channel]
    exact List.mem_cons_of_mem _ hd
  · exact hd

/-- The records that a request builds are sound. -/
theorem isSound_of_build {r : Records} (h : q.build s = (.ok r, s')) (root : Symbol) :
    ∀ p ∈ r.publications root, p.IsSound s.symbolLimit? (q.handed s) := by
  obtain ⟨d, emitter, stamps⟩ := stamps_of_build h
  rw [Records.publications, List.forall_mem_cons]
  refine ⟨stamps.isSound root, fun p hp => ?_⟩
  cases builds_of_build h with
  | operation bound built =>
    cases List.mem_singleton.mp hp
    exact isSound_older bound built
  | standard built => cases hp

end Request

/-- Whatever the calls of a session are given and whatever the host tells, in every record that it
tries to publish the texts are sound: an address is not empty and a symbol is well formed, or the
call that the record comes from was handed it. -/
theorem attempts_sound {σ : Type} (t : Transport σ) (w : World σ) (cs : List Call) :
    ∀ a ∈ attempts t w cs, ∃ turn ∈ turns t w cs,
      (∃ r, turn.built = .ok r ∧ a.record ∈ r.publications turn.call.emitter.root) ∧
      a.record.IsSound turn.before.surroundings.symbolLimit?
        (turn.call.request.handed turn.before.surroundings) := by
  intro a ha
  obtain ⟨turn, listed, r, built, published⟩ := mem_attempts ha
  exact ⟨turn, listed, ⟨r, built, published⟩,
    Request.isSound_of_build (Prod.ext built rfl) _ _ published⟩

theorem attempts_sound_mint :
    let w : World (List Publication) := ⟨.ledger, [], []⟩
    let cs := [Call.onLedger (.operation .mint
      [.plain "bob", .number 1, .address ⟨"token"⟩, .plain "airdrop"] [])]
    ∃ a ∈ attempts .keeping w cs, .symbol ⟨"airdrop"⟩ ∈ a.record.payload.texts ∧
      ∃ turn ∈ turns .keeping w cs, a.record.IsSound turn.before.surroundings.symbolLimit?
        (turn.call.request.handed turn.before.surroundings) := by
  intro w cs
  obtain ⟨a, rest, first, interned⟩ : ∃ a rest, attempts .keeping w cs = a :: rest ∧
      .symbol ⟨"airdrop"⟩ ∈ a.record.payload.texts := ⟨_, _, rfl, by decide⟩
  have listed : a ∈ attempts .keeping w cs := first ▸ List.mem_cons_self
  obtain ⟨turn, among, _, sound⟩ := attempts_sound .keeping w cs a listed
  exact ⟨a, listed, interned, turn, among, sound⟩

/-- A member of a vocabulary that a caller defined. -/
def ForeignText.inFavour : ForeignText where
  content := "yes"
  shown := "VoteType.YES"
  value := some (.proper "yes")
  inspected := "<VoteType.YES: 'yes'>"
  className := "VoteType"

/-- An address or a symbol that a caller made itself is taken as it is, even an empty address or a
symbol outside the alphabet. Of a member of the caller's own vocabulary a symbol is made that the
call was not handed. -/
theorem attempts_unsound :
    let w : World (List Publication) := ⟨.ledger, [], []⟩
    let cs := [
      Call.onLedger (.operation .transfer
        [.address ⟨""⟩, .plain "bob", .number 1, .address ⟨"token"⟩] []),
      Call.onLedger (.operation .vote
        [.plain "bob", .number 7, .symbol ⟨"not a symbol!"⟩, .number 1] []),
      Call.onLedger (.operation .vote
        [.plain "bob", .number 7, .text (.foreign .inFavour), .number 1] [])]
    (∃ a ∈ attempts .keeping w cs, a.outcome = .ok () ∧
      .address ⟨""⟩ ∈ a.record.payload.texts) ∧
    (∃ a ∈ attempts .keeping w cs, a.outcome = .ok () ∧
      .symbol ⟨"not a symbol!"⟩ ∈ a.record.payload.texts) ∧
    (∃ a ∈ attempts .keeping w cs, a.outcome = .ok () ∧
      .symbol ⟨"VoteType.YES"⟩ ∈ a.record.payload.texts) ∧
    ∀ limit?, ¬Symbol.IsWellFormed ⟨"not a symbol!"⟩ limit? ∧
      ¬Symbol.IsWellFormed ⟨"VoteType.YES"⟩ limit? := by
  intro w cs
  refine ⟨⟨(attempts .keeping w cs)[0], List.getElem_mem _, rfl, by decide⟩,
    ⟨(attempts .keeping w cs)[2], List.getElem_mem _, rfl, by decide⟩,
    ⟨(attempts .keeping w cs)[4], List.getElem_mem _, rfl, by decide⟩, fun limit? => ⟨?_, ?_⟩⟩
  · rintro ⟨_, alphabet, _⟩
    exact absurd (alphabet (.char '!') (by decide)) (by decide)
  · rintro ⟨_, alphabet, _⟩
    exact absurd (alphabet (.char '.') (by decide)) (by decide)

end EventEnvelope
