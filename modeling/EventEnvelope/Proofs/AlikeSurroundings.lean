import EventEnvelope.Proofs.ArgumentAdmission
import EventEnvelope.Proofs.Performing

/-! Surroundings that tell the same. What was reported makes no difference to a builder, nor does it
matter whether the settings were read before or are read now. Main statement: in surroundings that
are alike an envelope is built alike, and field faults without a topic come from settings that
cannot be read. -/

namespace EventEnvelope

variable {α β : Type}

namespace Surroundings

/-- All that a builder is told by the one, it is told by the other. -/
structure Alike (s s' : Surroundings) : Prop where
  settings : s'.config.settings.1 = s.config.settings.1
  identity : s'.identity = s.identity
  clock : s'.clock = s.clock
  ticks : s'.ticks = s.ticks
  version : s'.version = s.version

namespace Alike

theorem refl (s : Surroundings) : s.Alike s := ⟨rfl, rfl, rfl, rfl, rfl⟩

theorem symm {s s' : Surroundings} (h : s.Alike s') : s'.Alike s :=
  ⟨h.settings.symm, h.identity.symm, h.clock.symm, h.ticks.symm, h.version.symm⟩

theorem trans {s s' s'' : Surroundings} (h : s.Alike s') (h' : s'.Alike s'') : s.Alike s'' :=
  ⟨h'.settings.trans h.settings, h'.identity.trans h.identity, h'.clock.trans h.clock,
    h'.ticks.trans h.ticks, h'.version.trans h.version⟩

end Alike

end Surroundings

namespace Build

/-- A step that asks for nothing but the settings: it answers as they tell, changes nothing that a
builder is told, and fails with their own faults only when they cannot be read. -/
structure Asks (x : Build α) : Prop where
  answer : ∀ s s' : Surroundings, s'.config.settings.1 = s.config.settings.1 → (x s').1 = (x s).1
  alike : ∀ s : Surroundings, s.Alike (x s).2
  unread : ∀ (s : Surroundings) (faults : List Fault), (x s).1 = .error (.invalid faults) →
    s.config.settings.1 = .error faults

theorem asks_pure (a : α) : Asks (pure a : Build α) where
  answer s s' told := rfl
  alike := .refl
  unread s faults h := by cases h

theorem asks_throw {e : Failure} (own : ∀ faults, e ≠ .invalid faults) :
    Asks (throw e : Build α) where
  answer s s' told := rfl
  alike := .refl
  unread s faults h := by
    cases h
    exact absurd rfl (own faults)

theorem asks_admitted (r : Except EncodingFault α) : Asks (admitted r) := by
  cases r with
  | ok a => exact asks_pure a
  | error fault => exact asks_throw (by simp)

theorem Asks.bind {x : Build α} {f : α → Build β} (hx : x.Asks) (hf : ∀ a, (f a).Asks) :
    Asks (x >>= f) := by
  have alone (s : Surroundings) : s.Alike ((x >>= f) s).2 ∧
      ∀ faults, ((x >>= f) s).1 = .error (.invalid faults) →
        s.config.settings.1 = .error faults := by
    have alike := hx.alike s
    have unread := hx.unread s
    rw [bind_apply]
    rcases went : x s with ⟨r, mid⟩
    rw [went] at alike unread
    cases r with
    | error e => exact ⟨alike, fun faults h => unread faults (by cases h; rfl)⟩
    | ok a =>
      refine ⟨alike.trans ((hf a).alike mid), fun faults h => ?_⟩
      rw [← (hf a).unread mid faults h]
      exact alike.settings.symm
  refine ⟨?_, fun s => (alone s).1, fun s => (alone s).2⟩
  intro s s' told
  have answer := hx.answer s s' told
  have alike := hx.alike s
  have alike' := hx.alike s'
  rw [bind_apply, bind_apply]
  rcases went : x s with ⟨r, mid⟩
  rcases went' : x s' with ⟨r', mid'⟩
  rw [went, went'] at answer
  rw [went] at alike
  rw [went'] at alike'
  cases answer
  cases r with
  | error e => rfl
  | ok a => exact (hf a).answer mid mid' (alike'.settings.trans (told.trans alike.settings.symm))

theorem Asks.map {x : Build α} (hx : x.Asks) (f : α → β) : Asks (x >>= fun a => pure (f a)) :=
  hx.bind fun a => asks_pure (f a)

theorem asks_settings : Asks settings := by
  have run (s : Surroundings) : settings s = (s.config.settings.1.mapError .invalid,
      { s with config := s.config.settings.2 }) := by
    unfold settings
    rcases s.config.settings with ⟨r, c⟩
    cases r <;> rfl
  constructor
  · intro s s' told
    rw [run, run, told]
  · intro s
    rw [run]
    exact ⟨s.config.settings_fst, rfl, rfl, rfl, rfl⟩
  · intro s faults h
    rw [run] at h
    cases told : s.config.settings.1 with
    | ok r => rw [told] at h; cases h
    | error faults' => rw [told] at h; cases h; rfl

theorem asks_symbolLimit (interned : Bool) : Asks (symbolLimit interned) := by
  unfold symbolLimit
  split
  · exact asks_settings.map _
  · exact asks_pure _

theorem asks_symbol (d : Datum) : Asks (symbol d) :=
  (asks_symbolLimit _).bind fun _ => asks_admitted _

theorem asks_root (d : Datum) : Asks (root d) := by
  cases d with
  | null => exact asks_settings.bind fun r => asks_symbol _
  | _ => exact asks_symbol _

theorem asks_topic (d : Datum) : Asks (topic d) := by
  rw [topic_eq]
  cases d.topic? with
  | some t => exact asks_pure t
  | none => exact asks_throw (by simp)

theorem asks_value (d : Datum) : Asks (value d) :=
  (asks_symbolLimit _).bind fun _ => asks_admitted _

theorem asks_values (ds : List Datum) : Asks (values ds) := by
  induction ds with
  | nil => exact asks_pure []
  | cons d r ih => exact (asks_value d).bind fun v => ih.map _

theorem asks_metadataEntry (key : Datum) (ds : List Datum) : Asks (metadataEntry key ds) := by
  apply (asks_admitted _).bind
  intro k
  split
  · exact (asks_throw (by simp)).bind fun _ => (asks_values ds).map _
  · exact (asks_pure ()).bind fun _ => (asks_values ds).map _

theorem asks_metadataEntries (es : List (Datum × Datum)) : Asks (metadataEntries es) := by
  induction es with
  | nil => exact asks_pure []
  | cons e r ih =>
    obtain ⟨key, values⟩ := e
    unfold metadataEntries
    split
    · exact (asks_metadataEntry key _).bind fun _ => ih.map _
    · exact asks_throw (by simp)

theorem asks_metadata (d : Datum) : Asks (metadata d) := by
  cases d with
  | map es => exact (asks_metadataEntries es).bind fun _ => asks_admitted _
  | _ => exact asks_throw (by simp)

theorem asks_actor (d : Datum) : Asks (actor d) := by
  cases d with
  | null => exact asks_pure none
  | _ => exact (asks_admitted _).map _

theorem asks_data (d : Datum) : Asks (data d) := by
  unfold data
  split
  · exact asks_values _
  · exact asks_throw (by simp)

theorem asks_draft (topic : Topic) (actor data metadata : Datum) :
    Asks (draft topic actor data metadata) :=
  (asks_actor actor).bind fun _ => (asks_data data).bind fun _ => (asks_metadata metadata).map _

/-- The step does alike in surroundings that are alike, keeps what the settings tell, and fails with
their own faults only when they cannot be read. It may read the clock. -/
structure Repeats (x : Build α) : Prop where
  answer : ∀ s s' : Surroundings, s.Alike s' → (x s').1 = (x s).1
  alike : ∀ s s' : Surroundings, s.Alike s' → (x s).2.Alike (x s').2
  settings : ∀ s : Surroundings, (x s).2.config.settings.1 = s.config.settings.1
  unread : ∀ (s : Surroundings) (faults : List Fault), (x s).1 = .error (.invalid faults) →
    s.config.settings.1 = .error faults

theorem Asks.repeats {x : Build α} (hx : x.Asks) : x.Repeats where
  answer s s' h := hx.answer s s' h.settings
  alike s s' h := ((hx.alike s).symm.trans h).trans (hx.alike s')
  settings s := (hx.alike s).settings
  unread := hx.unread

theorem Repeats.bind {x : Build α} {f : α → Build β} (hx : x.Repeats)
    (hf : ∀ a, (f a).Repeats) : Repeats (x >>= f) := by
  have both (s s' : Surroundings) (h : s.Alike s') :
      ((x >>= f) s').1 = ((x >>= f) s).1 ∧ ((x >>= f) s).2.Alike ((x >>= f) s').2 := by
    have answer := hx.answer s s' h
    have alike := hx.alike s s' h
    rw [bind_apply, bind_apply]
    rcases went : x s with ⟨r, mid⟩
    rcases went' : x s' with ⟨r', mid'⟩
    rw [went, went'] at answer alike
    cases answer
    cases r with
    | error e => exact ⟨rfl, alike⟩
    | ok a => exact ⟨(hf a).answer mid mid' alike, (hf a).alike mid mid' alike⟩
  have alone (s : Surroundings) : ((x >>= f) s).2.config.settings.1 = s.config.settings.1 ∧
      ∀ faults, ((x >>= f) s).1 = .error (.invalid faults) →
        s.config.settings.1 = .error faults := by
    have settings := hx.settings s
    have unread := hx.unread s
    rw [bind_apply]
    rcases went : x s with ⟨r, mid⟩
    rw [went] at settings unread
    cases r with
    | error e => exact ⟨settings, fun faults h => unread faults (by cases h; rfl)⟩
    | ok a =>
      refine ⟨((hf a).settings mid).trans settings, fun faults h => ?_⟩
      rw [← (hf a).unread mid faults h]
      exact settings.symm
  exact ⟨fun s s' h => (both s s' h).1, fun s s' h => (both s s' h).2, fun s => (alone s).1,
    fun s => (alone s).2⟩

theorem repeats_identity : Repeats identity where
  answer s s' h := congrArg Except.ok h.identity
  alike s s' h := h
  settings s := rfl
  unread s faults h := by cases h

theorem repeats_version : Repeats version where
  answer s s' h := congrArg Except.ok h.version
  alike s s' h := h
  settings s := rfl
  unread s faults h := by cases h

theorem repeats_now : Repeats now := by
  constructor
  · intro s s' h
    unfold now
    rw [h.clock, h.ticks]
    cases s.clock s.ticks <;> rfl
  · intro s s' h
    unfold now
    rw [h.clock, h.ticks]
    cases s.clock s.ticks <;>
      exact ⟨h.settings, h.identity, rfl, rfl, h.version⟩
  · intro s
    unfold now
    cases s.clock s.ticks <;> rfl
  · intro s faults h
    unfold now at h
    cases read : s.clock s.ticks <;> rw [read] at h <;> cases h

theorem repeats_stamp (d : Draft) (given : Datum) : Repeats (stamp d given) := by
  apply repeats_identity.bind
  intro identity
  apply (asks_admitted _).repeats.bind
  intro emitter
  -- however the time was come by, the stamps are checked in the same way
  split
  all_goals
    apply Repeats.bind
    case hf =>
      intro time
      apply repeats_version.bind
      intro current
      cases Draft.stamps time current with
      | ok pair => exact (asks_pure _).repeats
      | error faults => exact (asks_throw (by simp)).repeats
  · exact repeats_now
  · exact (asks_pure _).repeats

theorem repeats_envelope (topic actor data metadata given : Datum) :
    Repeats (envelope topic actor data metadata given) :=
  (asks_topic topic).repeats.bind fun _ =>
    (asks_draft _ actor data metadata).repeats.bind fun d => repeats_stamp d given

end Build

end EventEnvelope
