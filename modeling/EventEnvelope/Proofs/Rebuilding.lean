import EventEnvelope.Proofs.Acceptance
import EventEnvelope.Proofs.EnvelopeAdmission

/-! Building an envelope again from its own parts. A value that was admitted is admitted as it is,
whatever has become of the settings, and the host's identity and version stamp alike. Main
statement: the builder returns the same envelope, and emitting the standardized record of an
operation by itself publishes the same payload. -/

namespace EventEnvelope

variable {σ τ : Type} {limit? : Option Nat}

namespace Topic

/-- What a topic is asked for by: the member or its identifier, or its semantic name in any case of
the ASCII letters. -/
inductive Names (t : Topic) : Datum → Prop
  | identifier {d : Datum} (text : d.proper? = some t.id) : Names t d
  | name {d : Datum} {s : String} (text : d.proper? = some s)
      (upper : s.toList.map Char.toUpper = t.name.toList) : Names t d

theorem ofName?_name (t : Topic) : ofName? t.name = some t := by cases t <;> decide +kernel

theorem isAscii_name (t : Topic) : t.name.toList.all (·.toNat < 128) = true := by
  cases t <;> decide +kernel

/-- No identifier is another topic's name in some letter case. -/
theorem eq_of_upper_id (t t' : Topic) (h : t'.id.toList.map Char.toUpper = t.name.toList) :
    t' = t := by
  have apart : ∀ a ∈ all, ∀ b ∈ all, b.id.toList.map Char.toUpper = a.name.toList → b = a := by
    decide +kernel
  exact apart t t.mem_all t' t'.mem_all h

end Topic

namespace Text

theorem isAscii_of_toUpper {c : Char} (h : c.toUpper.toNat < 128) : c.toNat < 128 := by
  unfold Char.toUpper at h
  split at h
  · next lower =>
    have bound : c.toNat ≤ 122 := lower.2
    omega
  · exact h

theorem upper?_of_isAscii {cs : List Char} (h : ∀ c ∈ cs, c.toNat < 128) :
    upper? cs = some (cs.map Char.toUpper) := by
  induction cs with
  | nil => rfl
  | cons c cs ih =>
    rw [List.forall_mem_cons] at h
    rw [upper?, ih h.2, asciiUpper?, if_pos h.1]
    rfl

end Text

theorem Topic.Names.topic?_eq {t : Topic} {d : Datum} (h : t.Names d) : d.topic? = some t := by
  cases h with
  | identifier text =>
    rw [Datum.topic?, text, Option.bind_some, resolve?, ofId?_id]
  | @name s text upper =>
    rw [Datum.topic?, text, Option.bind_some, resolve?]
    cases found : ofId? s with
    | some t' =>
      have same := List.find?_some found
      have named : t'.id = s := eq_of_beq same
      subst named
      exact congrArg some (eq_of_upper_id t t' upper)
    | none =>
      have ascii : ∀ c ∈ s.toList, c.toNat < 128 := by
        intro c hc
        have held : c.toUpper ∈ t.name.toList := upper ▸ List.mem_map_of_mem hc
        exact Text.isAscii_of_toUpper (by simpa using List.all_eq_true.mp t.isAscii_name _ held)
      dsimp only
      rw [Text.upper?_of_isAscii ascii, upper, Option.bind_some, String.ofList_toList]
      exact t.ofName?_name

/-! What the parts of an event become is settled by the parts. -/

theorem Datum.becomes_unique : Relator.RightUnique (Datum.Becomes limit?) := by
  intro d v v' h h'
  cases h <;> cases h' <;> first | rfl | contradiction

theorem Datum.becomesActor_unique : Relator.RightUnique Datum.BecomesActor := by
  intro d a? a?' h h'
  cases h with
  | absent =>
    cases h' with
    | absent => rfl
    | identity taken => cases taken
  | identity taken =>
    cases h' with
    | absent => cases taken
    | identity taken' => exact congrArg some (Except.ok.inj (taken.symm.trans taken'))

theorem Metadata.becomes_unique : Relator.RightUnique (Metadata.Becomes limit?) := by
  rintro entry ⟨k, vs⟩ ⟨k', vs'⟩ h h'
  obtain ⟨ds, listed, becomes⟩ := h.values
  obtain ⟨ds', listed', becomes'⟩ := h'.values
  cases listed.symm.trans listed'
  have key := MetadataKey.eq_of_content? h.key h'.key
  have values := Datum.becomes_unique.forall₂ becomes becomes'
  exact congrArg₂ Prod.mk key values

theorem Draft.Renders.unique {d d' : Draft} {topic : Topic} {actor : Datum} {data : List Datum}
    {metadata : List (Datum × Datum)} (h : d.Renders limit? topic actor data metadata)
    (h' : d'.Renders limit? topic actor data metadata) : d' = d := by
  obtain ⟨t, a?, vs, m⟩ := d
  obtain ⟨t', a?', vs', m'⟩ := d'
  cases h.topic.trans h'.topic.symm
  cases Datum.becomesActor_unique h.actor h'.actor
  cases Datum.becomes_unique.forall₂ h.data h'.data
  cases Metadata.becomes_unique.forall₂ h.metadata h'.metadata
  rfl

theorem Datum.isElement_of_becomes {ds : List Datum} {vs : List Value}
    (h : List.Forall₂ (Datum.Becomes limit?) ds vs) : ∀ d ∈ ds, d.IsElement limit? := by
  induction h with
  | nil => simp
  | cons first _ ih => exact List.forall_mem_cons.mpr ⟨⟨_, first⟩, ih⟩

theorem Metadata.isEntry_of_becomes {es : List (Datum × Datum)} {m : Metadata}
    (h : List.Forall₂ (Becomes limit?) es m) (filled : ∀ e ∈ m, e.2 ≠ []) :
    ∀ entry ∈ es, IsEntry limit? entry := by
  induction h with
  | nil => simp
  | @cons entry e es m first _ ih =>
    rw [List.forall_mem_cons] at filled ⊢
    obtain ⟨ds, listed, becomes⟩ := first.values
    refine ⟨⟨⟨_, first.key⟩, ds, listed, ?_, Datum.isElement_of_becomes becomes⟩, ih filled.2⟩
    intro none
    rw [none] at becomes
    exact filled.1 (List.forall₂_nil_left_iff.mp becomes)

theorem Datum.BecomesActor.admitted {d : Datum} {a? : Option Address} (h : d.BecomesActor a?) :
    d = .null ∨ d.IsIdentity := by
  cases h with
  | absent => exact .inl rfl
  | identity taken => exact .inr ((Admission.address_ok_iff _).mp ⟨_, taken⟩)

/-- What a draft renders is admitted if each key of it stands for some value. -/
theorem Draft.Renders.admits {d : Draft} {s : Surroundings} {topic : Topic} {actor : Datum}
    {data : List Datum} {metadata : List (Datum × Datum)} {time : Int}
    (h : d.Renders s.symbolLimit? topic actor data metadata) (filled : ∀ e ∈ d.metadata, e.2 ≠ [])
    (identity : s.identity.IsIdentity) (begun : 0 ≤ time) (version : 1 ≤ s.version) :
    s.Admits actor data metadata time :=
  ⟨h.actor.admitted, Datum.isElement_of_becomes h.data,
    Metadata.isEntry_of_becomes h.metadata filled, identity, begun, version⟩

/-! A value that was admitted is one that stays as it is. -/

theorem Value.Admitted.becomes {offered : Text → Prop} {admittedUnder? : Option Nat} {v : Value}
    (h : v.Admitted admittedUnder? offered) : v.toDatum.Becomes limit? v := by
  cases h with
  | flag b => exact .flag b
  | number range => exact .number (by simpa [Value.inRange, Datum.IsAmount] using range)
  | address => exact .address _
  | symbol => exact .symbol _

theorem Value.forall₂_becomes {offered : Text → Prop} {admittedUnder? : Option Nat}
    {vs : List Value} (h : ∀ v ∈ vs, v.Admitted admittedUnder? offered) :
    List.Forall₂ (Datum.Becomes limit?) (vs.map Value.toDatum) vs := by
  rw [List.forall₂_map_left_iff, List.forall₂_same]
  exact fun v hv => (h v hv).becomes

theorem Metadata.sequence?_of_sequence? {d : Datum} {ds : List Datum}
    (h : d.sequence? = some ds) : sequence? d = some ds := by
  cases d <;> first | exact h | cases h

/-- Entries that show admitted metadata become it again. -/
theorem Metadata.becomes_of_shows {offered : Text → Prop} {admittedUnder? : Option Nat}
    {es : List (Datum × Datum)} {m : Metadata}
    (h : List.Forall₂ MetadataEntries.Shows es m.toEntries)
    (values : ∀ e ∈ m, ∀ v ∈ e.2, v.Admitted admittedUnder? offered) :
    List.Forall₂ (Becomes limit?) es m := by
  rw [toEntries, List.forall₂_map_right_iff] at h
  induction h with
  | nil => exact .nil
  | cons first _ ih =>
    rw [List.forall_mem_cons] at values
    have listed := sequence?_of_sequence? first.2
    exact .cons ⟨first.1, _, listed, Value.forall₂_becomes values.1⟩ (ih values.2)

theorem Draft.becomesActor (d : Draft) : d.actorDatum.BecomesActor d.actor := by
  unfold actorDatum
  cases d.actor with
  | none => exact .absent
  | some a => exact .identity rfl

/-- A draft of admitted values is what its own parts are rendered as, under any limit. -/
theorem Draft.IsAdmitted.renders {d : Draft} {offered : Text → Prop} {admittedUnder? : Option Nat}
    {entries : List (Datum × Datum)} (h : d.IsAdmitted admittedUnder? offered)
    (shown : List.Forall₂ MetadataEntries.Shows entries d.metadata.toEntries) :
    d.Renders limit? d.topic d.actorDatum (d.data.map Value.toDatum) entries where
  topic := rfl
  actor := d.becomesActor
  data := Value.forall₂_becomes h.data
  metadata := Metadata.becomes_of_shows shown fun e he => (h.metadata e he).2

namespace MetadataEntries

/-- Entries that show distinct keys are those of a map. -/
theorem pairwise_of_shows {es : List (Datum × Datum)} {m : MetadataEntries}
    (h : List.Forall₂ Shows es m) (distinct : (m.map Prod.fst).Nodup) :
    es.Pairwise fun e e' => Datum.same e.1 e'.1 = false := by
  induction h with
  | nil => exact .nil
  | @cons entry e es m first rest ih =>
    rw [List.map_cons, List.nodup_cons] at distinct
    refine .cons ?_ (ih distinct.2)
    intro entry' listed
    obtain ⟨e', held, shows⟩ := exists_of_forall₂ rest.flip listed
    refine Datum.same_eq_false first.1 shows.1 ?_
    intro named
    have same := MetadataKey.id_injective (CodeText.proper.inj named)
    exact distinct.1 (same ▸ List.mem_map_of_mem held)

end MetadataEntries

namespace Envelope

/-- What an envelope is built of: a draft of values that were once admitted, stamped in surroundings
of this identity and version. -/
structure IsBuilt (e : Envelope) (s : Surroundings) (d : Draft) (emitter : Address) : Prop where
  admitted : ∃ limit? offered, d.IsAdmitted limit? offered
  identified : Admission.address s.identity = .ok emitter
  version : (e.version : Int) = s.version
  begun : 1 ≤ e.version
  standard : e = d.stamped emitter e.timestamp e.version

/-- The parts of an envelope as a caller may hand them in: the topic under one of its names,
anything that yields the elements, and the entries under members or their texts. -/
structure Restated (e : Envelope) (topic data : Datum) (metadata : List (Datum × Datum)) :
    Prop where
  topic : e.topic.Names topic
  data : data.elements? = some e.data
  metadata : List.Forall₂ MetadataEntries.Shows metadata e.metadata

end Envelope

/-- The parts of an envelope just as it holds them. -/
theorem Envelope.restated_own (e : Envelope) : e.Restated (.topic e.topic) (.tuple e.data)
    (e.metadata.map fun m => (.text (.key m.1), .tuple m.2)) where
  topic := .identifier rfl
  data := rfl
  metadata := by
    rw [List.forall₂_map_left_iff, List.forall₂_same]
    exact fun _ _ => ⟨rfl, rfl⟩

/-- Surroundings that stamp alike; settings and clock may differ. -/
structure Surroundings.StampsAs (r s : Surroundings) : Prop where
  identity : r.identity = s.identity
  version : r.version = s.version

variable {s s' r : Surroundings} {e : Envelope} {topic actor data metadata given : Datum}
  {entries : List (Datum × Datum)}

theorem Build.exists_isBuilt (h : envelope topic actor data metadata given s = (.ok e, s')) :
    ∃ d emitter, e.IsBuilt s d emitter := by
  obtain ⟨d, emitter, admitted, identified, version, standard⟩ :=
    envelope_eq_ok h fun e he t own => (⟨e, he, own⟩ : ∃ e ∈ [actor, data, metadata], e.Offers t)
  exact ⟨d, emitter, ⟨_, _, admitted⟩, identified, version, (envelope_isTyped h).version, standard⟩

theorem Operation.exists_isBuilt {op : Operation} {args : CallerArguments} {e : Emission}
    (h : op.build args s = (.ok e, s')) : ∃ d emitter, e.standard.IsBuilt s d emitter := by
  obtain ⟨m, emitter, now, made⟩ := build_makes h
  exact ⟨_, emitter, ⟨_, _, made.isAdmitted⟩, made.identified, made.version,
    (build_isTyped h).version, made.standard⟩

/-- The parts of an envelope are admitted wherever it is stamped alike, and make it again under its
own time. -/
theorem Envelope.IsBuilt.rebuilt {d : Draft} {emitter : Address} (h : e.IsBuilt s d emitter)
    (restated : e.Restated topic data entries) (alike : r.StampsAs s)
    (timed : r.Times given e.timestamp) :
    (Build.envelope topic e.actor data (.map entries) given r).1 = .ok e := by
  obtain ⟨⟨_, _, admitted⟩, identified, current, begun, standard⟩ := h
  have parts : e.topic = d.topic ∧ e.actor = d.actorDatum ∧ e.data = d.data.map Value.toDatum ∧
      e.metadata = d.metadata.toEntries := by
    rw [standard]
    exact ⟨rfl, rfl, rfl, rfl⟩
  obtain ⟨named, listed, shown⟩ := restated
  rw [parts.1] at named
  rw [parts.2.2.1] at listed
  rw [parts.2.2.2] at shown
  have renders : d.Renders r.symbolLimit? d.topic d.actorDatum _ entries := admitted.renders shown
  have distinct := MetadataEntries.pairwise_of_shows shown (by simpa using admitted.distinct)
  rw [← alike.identity] at identified
  rw [← alike.version] at current
  have fit := renders.admits (fun e he => (admitted.metadata e he).1)
    ((Admission.address_ok_iff _).mp ⟨_, identified⟩) (Int.natCast_nonneg e.timestamp) (by omega)
  rw [parts.2.1]
  cases Build.settles_envelope named.topic?_eq d.actorDatum listed distinct timed with
  | refused run fails => exact absurd fit fails
  | returned run holds kept =>
    obtain ⟨⟨d', emitter', renders', identified', made⟩, _⟩ := kept
    cases renders.unique renders'
    cases identified.symm.trans identified'
    rw [run, made, ← current, Int.toNat_natCast, Int.toNat_natCast, ← standard]

theorem Transport.handOver_observed_ok {t : Transport σ} {s left : σ × List Attempt}
    {ps : List Publication} (h : t.observed.handOver s ps = (.ok (), left)) :
    left.2 = s.2 ++ ps.map (⟨·, .ok ()⟩) := by
  induction ps generalizing s with
  | nil =>
    cases h
    simp
  | cons p ps ih =>
    unfold handOver at h
    split at h
    · next accepted =>
      have recorded : (t.observed s p).state.2 = s.2 ++ [⟨p, .ok ()⟩] :=
        congrArg (fun r => s.2 ++ [Attempt.mk p r]) accepted
      rw [ih h, recorded]
      simp
    · cases h

theorem Transport.handOver_observed_fst (t : Transport σ) (s : σ × List Attempt) (p : Publication) :
    (t.observed.handOver s [p]).1 = (t s.1 p).outcome := by
  change _ = (t.observed s p).outcome
  unfold handOver
  cases (t.observed s p).outcome <;> rfl

/-- An operation that returns has had both its records accepted. -/
theorem Emitter.attempts_of_perform {em : Emitter} {t : Transport σ} {op : Operation}
    {args : CallerArguments} {w : World σ} {e : Emission}
    (h : (em.perform t.observed op args w.observed).1 = .ok e) :
    (op.build args w.surroundings).1 = .ok e ∧
      (em.perform t.observed op args w.observed).2.transport.2
        = [⟨e.standard.publication em.root, .ok ()⟩, ⟨e.legacy, .ok ()⟩] := by
  cases em.emits_perform t.observed op args w.observed with
  | rejected built ends | refused built handed ends => cases h.symm.trans ends.reply
  | published built handed ends =>
    cases h.symm.trans ends.reply
    refine ⟨built, ?_⟩
    rw [ends.transport]
    exact Transport.handOver_observed_ok handed

/-- An envelope that can be built is what an emitter answers, and its only attempt. -/
theorem Emitter.attempts_of_emitStandard (em : Emitter) (t : Transport σ) {w : World σ}
    (known : topic.topic? = some e.topic)
    (built : (Build.envelope topic actor data metadata .null w.surroundings).1 = .ok e) :
    let p := e.publication em.root
    let emitted := em.emitStandard t.observed topic actor data metadata w.observed
    emitted.1 = (t w.transport p).outcome.map (fun _ => e) ∧
      emitted.2.transport.2 = [⟨p, (t w.transport p).outcome⟩] := by
  intro p emitted
  have leaves := em.leaves_built (t := t.observed) (w := w.observed) known (Prod.ext built rfl)
  constructor
  · rw [← t.handOver_observed_fst (w.transport, [])]
    exact leaves.reply
  · rw [leaves.transport]
    exact t.handOver_observed_one (w.transport, []) p

/-- What the builder returned is returned again for its own parts and its own time, wherever it is
stamped alike. So is the standardized record of an operation that was performed: emitted by itself
when the clock tells its time, it is the only attempt, with the payload that was published first. -/
theorem Build.envelope_restated :
    (∀ (s r : Surroundings) (topic actor data metadata given name again : Datum)
        (entries : List (Datum × Datum)) (e : Envelope),
      (envelope topic actor data metadata given s).1 = .ok e →
      e.Restated name again entries → r.StampsAs s →
      (envelope name e.actor again (.map entries) (.number e.timestamp) r).1 = .ok e) ∧
    ∀ (em em' : Emitter) (t : Transport σ) (t' : Transport τ) (w : World σ) (w' : World τ)
        (op : Operation) (args : CallerArguments) (name again : Datum)
        (entries : List (Datum × Datum)) (e : Emission),
      let performed := em.perform t.observed op args w.observed
      let emitted := em'.emitStandard t'.observed name e.standard.actor again (.map entries)
        w'.observed
      let p := e.standard.publication em.root
      let p' := e.standard.publication em'.root
      performed.1 = .ok e → e.standard.Restated name again entries →
      w'.surroundings.StampsAs w.surroundings →
      w'.surroundings.Times .null e.standard.timestamp →
      performed.2.transport.2 = [⟨p, .ok ()⟩, ⟨e.legacy, .ok ()⟩] ∧
      emitted.2.transport.2 = [⟨p', (t' w'.transport p').outcome⟩] ∧ p'.payload = p.payload ∧
      emitted.1 = (t' w'.transport p').outcome.map fun _ => e.standard := by
  constructor
  · intro s r topic actor data metadata given name again entries e h restated alike
    obtain ⟨d, emitter, built⟩ := exists_isBuilt (Prod.ext h rfl)
    exact built.rebuilt restated alike (.given rfl)
  · intro em em' t t' w w' op args name again entries e performed emitted p p' h restated alike
      timed
    obtain ⟨made, attempts⟩ := Emitter.attempts_of_perform h
    obtain ⟨d, emitter, built⟩ := Operation.exists_isBuilt (Prod.ext made rfl)
    obtain ⟨answer, attempt⟩ := em'.attempts_of_emitStandard t' restated.topic.topic?_eq
      (built.rebuilt restated alike timed)
    exact ⟨attempts, attempt, rfl, answer⟩

/-- A symbol that would be too long by now, under a topic in mixed case, and a stake whose
standardized record is emitted once more below another root. -/
theorem Build.envelope_restated_mint :
    let minted : Envelope := ⟨.mint, .address ⟨"ledger"⟩, .null, [.symbol ⟨"WRAPPED_GOLD"⟩],
      [(.recipient, [.address ⟨"bob"⟩])], 1700000000, 2⟩
    let brief : Surroundings := { Surroundings.ledger with config := .brief }
    let w : World (List Publication) := ⟨.ledger, [], []⟩
    let w' : World (List Publication) := ⟨brief, [], []⟩
    (envelope (.plain "Mint") .null (.tuple minted.data)
      (.map [(.plain "to", .tuple [.address ⟨"bob"⟩])]) (.number minted.timestamp) brief).1
      = .ok minted ∧
    ∃ e : Emission,
      (Emitter.perform ⟨⟨"r"⟩, true⟩ Transport.keeping.observed .stake .stake w.observed).1
        = .ok e ∧
      (Emitter.emitStandard ⟨⟨"q"⟩, false⟩ Transport.keeping.observed (.topic e.standard.topic)
        e.standard.actor (.tuple e.standard.data) (Envelope.metadataMap e.standard.metadata)
        w'.observed).1 = .ok e.standard := by
  intro minted brief w w'
  have alike : brief.StampsAs .ledger := ⟨rfl, rfl⟩
  obtain ⟨again, anew⟩ := @envelope_restated (List Publication) (List Publication)
  constructor
  · have made : (envelope (.topic .mint) .null (.list [.plain "WRAPPED_GOLD"])
        (.map [(.text (.key .recipient), .list [.address ⟨"bob"⟩])]) .null .ledger).1
        = .ok minted := rfl
    have restated : minted.Restated (.plain "Mint") (.tuple minted.data)
        [(.plain "to", .tuple [.address ⟨"bob"⟩])] :=
      ⟨.name rfl (by decide), rfl, .cons ⟨rfl, rfl⟩ .nil⟩
    exact again _ _ _ _ _ _ _ _ _ _ minted made restated alike
  · obtain ⟨e, performed, time⟩ : ∃ e : Emission,
        (Emitter.perform ⟨⟨"r"⟩, true⟩ Transport.keeping.observed .stake .stake w.observed).1
          = .ok e ∧ e.standard.timestamp = 1700000000 := ⟨_, rfl, rfl⟩
    have timed : brief.Times .null e.standard.timestamp := by
      rw [time]
      exact .clock rfl rfl
    obtain ⟨_, _, _, answer⟩ := anew ⟨⟨"r"⟩, true⟩ ⟨⟨"q"⟩, false⟩ .keeping .keeping w w' .stake
      .stake _ _ _ e performed e.standard.restated_own alike timed
    exact ⟨e, performed, answer⟩

end EventEnvelope
