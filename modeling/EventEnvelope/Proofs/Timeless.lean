import EventEnvelope.Proofs.Effects

/-! Steps of building that take no time: they neither read the clock nor put another in its place,
and they fail only with what is passed on as an encoding fault. Every check of building is such a
step; the one reading of an operation stands between two of them. -/

namespace EventEnvelope

variable {α β : Type}

namespace Surroundings

/-- The clock stands as it stood. -/
structure Still (s s' : Surroundings) : Prop where
  clock : s'.clock = s.clock
  ticks : s'.ticks = s.ticks

theorem Still.refl (s : Surroundings) : s.Still s := ⟨rfl, rfl⟩

theorem Still.trans {s s' s'' : Surroundings} (h : s.Still s') (h' : s'.Still s'') :
    s.Still s'' :=
  ⟨h'.clock.trans h.clock, h'.ticks.trans h.ticks⟩

theorem Still.reading {s s' : Surroundings} (h : s.Still s') :
    s'.clock s'.ticks = s.clock s.ticks := by
  rw [h.clock, h.ticks]

end Surroundings

namespace Build

structure Timeless (x : Build α) : Prop where
  still : ∀ s : Surroundings, s.Still (x s).2
  failure : ∀ (s : Surroundings) (e : Failure), (x s).1 = .error e → e.isEncodable = true

theorem timeless_pure (a : α) : Timeless (pure a : Build α) where
  still := .refl
  failure s e h := by cases h

theorem timeless_throw {e : Failure} (h : e.isEncodable = true) :
    Timeless (throw e : Build α) where
  still := .refl
  failure s e' thrown := by
    cases thrown
    exact h

theorem timeless_admitted (r : Except EncodingFault α) : Timeless (admitted r) := by
  cases r with
  | ok a => exact timeless_pure a
  | error fault => exact timeless_throw rfl

theorem Timeless.bind {x : Build α} {f : α → Build β} (hx : Timeless x)
    (hf : ∀ a, Timeless (f a)) : Timeless (x >>= f) := by
  have run (s : Surroundings) : s.Still ((x >>= f) s).2 ∧
      ∀ e, ((x >>= f) s).1 = .error e → e.isEncodable = true := by
    have still := hx.still s
    have failure := hx.failure s
    rw [bind_apply]
    rcases went : x s with ⟨r, mid⟩
    rw [went] at still failure
    cases r with
    | error e =>
      refine ⟨still, fun e' h => ?_⟩
      cases h
      exact failure e rfl
    | ok a => exact ⟨still.trans ((hf a).still mid), (hf a).failure mid⟩
  exact ⟨fun s => (run s).1, fun s => (run s).2⟩

theorem Timeless.map {x : Build α} (hx : Timeless x) (f : α → β) :
    Timeless (x >>= fun a => pure (f a)) :=
  hx.bind fun a => timeless_pure (f a)

/-- What a timeless step returned, it returned at the same time. -/
theorem Timeless.of_eq_ok {x : Build α} (hx : Timeless x) {s s' : Surroundings} {a : α}
    (h : x s = (.ok a, s')) : s.Still s' := by
  have still := hx.still s
  rw [h] at still
  exact still

theorem timeless_settings : Timeless settings := by
  have run (s : Surroundings) : s.Still (settings s).2 ∧
      ∀ e, (settings s).1 = .error e → e.isEncodable = true := by
    unfold settings
    split
    · exact ⟨⟨rfl, rfl⟩, fun e h => by cases h⟩
    · refine ⟨⟨rfl, rfl⟩, fun e h => ?_⟩
      cases h
      rfl
  exact ⟨fun s => (run s).1, fun s => (run s).2⟩

theorem timeless_identity : Timeless identity := ⟨.refl, fun s e h => by cases h⟩

theorem timeless_version : Timeless version := ⟨.refl, fun s e h => by cases h⟩

theorem timeless_report (level : Level) (source : LogSource) (text : CodeText) :
    Timeless (report level source text) :=
  ⟨fun _ => ⟨rfl, rfl⟩, fun s e h => by cases h⟩

theorem timeless_symbolLimit (interned : Bool) : Timeless (symbolLimit interned) := by
  unfold symbolLimit
  split
  · exact timeless_settings.map _
  · exact timeless_pure _

theorem timeless_symbol (d : Datum) : Timeless (symbol d) :=
  (timeless_symbolLimit _).bind fun _ => timeless_admitted _

theorem timeless_typed (f : Field) (d : Datum) : Timeless (typed f d) := by
  unfold typed
  split
  · exact (timeless_admitted _).map _
  · exact (timeless_admitted _).map _
  · exact (timeless_admitted _).map _
  · exact (timeless_symbol d).map _

theorem timeless_value (d : Datum) : Timeless (value d) :=
  (timeless_symbolLimit _).bind fun _ => timeless_admitted _

theorem timeless_values (ds : List Datum) : Timeless (values ds) := by
  induction ds with
  | nil => exact timeless_pure []
  | cons d r ih => exact (timeless_value d).bind fun v => ih.map _

theorem timeless_metadataEntry (key : Datum) (ds : List Datum) :
    Timeless (metadataEntry key ds) := by
  apply (timeless_admitted _).bind
  intro k
  split
  · exact (timeless_throw rfl).bind fun _ => (timeless_values ds).map _
  · exact (timeless_pure ()).bind fun _ => (timeless_values ds).map _

theorem timeless_metadataEntries (es : List (Datum × Datum)) :
    Timeless (metadataEntries es) := by
  induction es with
  | nil => exact timeless_pure []
  | cons e r ih =>
    obtain ⟨key, values⟩ := e
    unfold metadataEntries
    split
    · exact (timeless_metadataEntry key _).bind fun _ => ih.map _
    · exact timeless_throw rfl

/-- Metadata in a map is made typed without a look at the clock. -/
theorem timeless_metadata (es : List (Datum × Datum)) : Timeless (metadata (.map es)) :=
  (timeless_metadataEntries es).bind fun _ => timeless_admitted _

theorem timeless_actor (d : Datum) : Timeless (actor d) := by
  cases d with
  | null => exact timeless_pure none
  | _ => exact (timeless_admitted _).map _

theorem timeless_data {d : Datum} {ds : List Datum} (listed : d.elements? = some ds) :
    Timeless (data d) := by
  unfold data
  rw [listed]
  exact timeless_values ds

theorem timeless_draft {topic : Topic} {actor data : Datum} {ds : List Datum}
    (listed : data.elements? = some ds) (es : List (Datum × Datum)) :
    Timeless (draft topic actor data (.map es)) :=
  (timeless_actor actor).bind fun _ => (timeless_data listed).bind fun _ =>
    (timeless_metadata es).map _

end Build

namespace Layout

theorem timeless_check (l : Layout) (args : CallerArguments) (fs : List Field) (a : Assignment) :
    (l.check args fs a).Timeless := by
  induction fs generalizing a with
  | nil => exact Build.timeless_pure a
  | cons f fs ih =>
    unfold check
    split
    · exact ih a
    · exact (Build.timeless_typed f _).bind fun v => ih _

theorem timeless_settle (l : Layout) (name : String) (args : CallerArguments) (fs : List Field)
    (a : Assignment) : (l.settle name args fs a).Timeless := by
  induction fs generalizing a with
  | nil => exact Build.timeless_pure a
  | cons f fs ih =>
    unfold settle
    split
    · exact (Build.timeless_report _ _ _).bind fun _ => ih _
    · exact (Build.timeless_typed f _).bind fun v => ih _

end Layout

end EventEnvelope
