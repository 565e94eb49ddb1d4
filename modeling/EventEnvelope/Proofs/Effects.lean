import EventEnvelope.Emitter
import EventEnvelope.Report

/-! How the library's computations run. A step that follows another starts where the first one
stopped, and a failure ends what follows it. Steps that only report or count neither fail nor touch
the transport. -/

namespace EventEnvelope

variable {σ α β : Type}

/-- What a mapped result holds was made of what the result holds. -/
theorem eq_ok_of_map {ε : Type} {f : α → β} {r : Except ε α} {b : β} (h : r.map f = .ok b) :
    ∃ a, r = .ok a ∧ f a = b := by
  cases r with
  | error e => cases h
  | ok a => exact ⟨a, rfl, Except.ok.inj h⟩

namespace Build

theorem bind_apply (x : Build α) (f : α → Build β) (s : Surroundings) :
    (x >>= f) s = match x s with
      | (.ok a, s') => f a s'
      | (.error e, s') => (.error e, s') := by
  change ExceptT.bindCont f (x s).1 (x s).2 = _
  rcases x s with ⟨r, s'⟩
  cases r <;> rfl

theorem pure_apply (a : α) (s : Surroundings) : (pure a : Build α) s = (.ok a, s) := rfl

theorem bind_pure_apply (x : Build α) (f : α → β) (s : Surroundings) :
    (x >>= fun a => pure (f a)) s = ((x s).1.map f, (x s).2) := by
  rw [bind_apply]
  rcases x s with ⟨r, s'⟩
  cases r <;> rfl

/-- What a computation of two steps returned, its first step returned before. -/
theorem bind_eq_ok {x : Build α} {f : α → Build β} {s s' : Surroundings} {b : β}
    (h : (x >>= f) s = (.ok b, s')) :
    ∃ a mid, x s = (.ok a, mid) ∧ f a mid = (.ok b, s') := by
  rw [bind_apply] at h
  rcases hx : x s with ⟨r, mid⟩
  rw [hx] at h
  cases r with
  | error e => cases h
  | ok a => exact ⟨a, mid, rfl, h⟩

/-- An outcome that depends on nothing. -/
def of (r : Except Failure α) : Build α := fun s => (r, s)

theorem of_eq_ok {r : Except Failure α} {s s' : Surroundings} {a : α} (h : of r s = (.ok a, s')) :
    r = .ok a ∧ s' = s := by
  cases h
  exact ⟨rfl, rfl⟩

theorem admitted_eq_ok {r : Except EncodingFault α} {s s' : Surroundings} {a : α}
    (h : admitted r s = (.ok a, s')) : r = .ok a ∧ s' = s := by
  cases r with
  | error e => cases h
  | ok b => cases h; exact ⟨rfl, rfl⟩

/-- The clock was read once, and what it told was returned. -/
theorem now_eq_ok {s s' : Surroundings} {d : Datum} (h : now s = (.ok d, s')) :
    s.clock s.ticks = .value d ∧ s' = { s with ticks := s.ticks + 1 } := by
  unfold now at h
  split at h
  · next d' told =>
    cases h
    exact ⟨told, rfl⟩
  · cases h

/-- A draft that was stamped: with the host's identity, and with the time it was given, or else with
one more reading of the clock. -/
theorem stamp_eq_ok {d : Draft} {given : Datum} {s s' : Surroundings} {e : Envelope}
    (h : stamp d given s = (.ok e, s')) :
    ∃ emitter time t v, Admission.address s.identity = .ok emitter ∧
      (given = .null ∧ now s = (.ok time, s') ∨ given ≠ .null ∧ time = given ∧ s' = s) ∧
      Draft.stamps time s'.version = .ok (t, v) ∧ e = d.stamped emitter t v := by
  obtain ⟨_, _, first, rest⟩ := bind_eq_ok h
  cases first
  obtain ⟨emitter, _, second, timed⟩ := bind_eq_ok rest
  obtain ⟨identified, rfl⟩ := admitted_eq_ok second
  -- However the time was come by, the stamps are checked in the same way.
  split at timed
  all_goals
    obtain ⟨time, mid, read, versioned⟩ := bind_eq_ok timed
    obtain ⟨_, _, third, checked⟩ := bind_eq_ok versioned
    cases third
    obtain ⟨⟨t, v⟩, stamps⟩ : ∃ pair, Draft.stamps time mid.version = .ok pair := by
      cases stamps : Draft.stamps time mid.version with
      | error faults => simp only [stamps] at checked; cases checked
      | ok pair => exact ⟨pair, rfl⟩
    simp only [stamps] at checked
    cases checked
    refine ⟨emitter, time, t, v, identified, ?_, stamps, rfl⟩
  · exact .inl ⟨rfl, read⟩
  · next present =>
    cases read
    exact .inr ⟨present, rfl, rfl⟩

end Build

/-- The steps of an operation that built its records. -/
theorem Operation.build_eq_ok {op : Operation} {args : CallerArguments} {s s' : Surroundings}
    {e : Emission} (h : op.build args s = (.ok e, s')) :
    ∃ a checked now read a' settled m,
      op.layout.check args op.layout.checks .empty s = (.ok a, checked) ∧
      Build.now checked = (.ok now, read) ∧
      op.layout.settle op.name args op.layout.late a read = (.ok a', settled) ∧
      Layout.metadataOf a' op.layout.metadata = .ok m ∧
      Build.stamp (op.draft a' m) now settled = (.ok e.standard, s') ∧
      e.legacy.channel = op.layout.legacyChannel a' ∧
      Layout.legacyPayload a' now op.layout.legacy = .ok e.legacy.payload := by
  obtain ⟨a, checked, first, h⟩ := Build.bind_eq_ok h
  obtain ⟨now, read, second, h⟩ := Build.bind_eq_ok h
  obtain ⟨a', settled, third, h⟩ := Build.bind_eq_ok h
  obtain ⟨m, keyed, fourth, h⟩ := Build.bind_eq_ok h
  obtain ⟨standard, stamped, fifth, h⟩ := Build.bind_eq_ok h
  obtain ⟨entries, same⟩ := Build.admitted_eq_ok fourth
  cases payload : Layout.legacyPayload a' now op.layout.legacy with
  | error faults => simp only [payload] at h; cases h
  | ok d =>
    simp only [payload] at h
    cases h
    exact ⟨a, checked, now, read, a', settled, m, first, second, third, entries, same ▸ fifth, rfl,
      payload⟩

namespace Reported

theorem bind_apply (x : Reported α) (f : α → Reported β) (log : Log) :
    (x >>= f) log = match x log with
      | (.ok a, log') => f a log'
      | (.error e, log') => (.error e, log') := by
  change ExceptT.bindCont f (x log).1 (x log).2 = _
  rcases x log with ⟨r, log'⟩
  cases r <;> rfl

theorem pure_apply (a : α) (log : Log) : (pure a : Reported α) log = (.ok a, log) := rfl

theorem bind_ok {x : Reported α} {log log' : Log} {a : α} (h : x log = (.ok a, log'))
    (f : α → Reported β) : (x >>= f) log = f a log' := by
  rw [bind_apply, h]

theorem bind_eq_ok {x : Reported α} {f : α → Reported β} {log log' : Log} {b : β}
    (h : (x >>= f) log = (.ok b, log')) :
    ∃ a mid, x log = (.ok a, mid) ∧ f a mid = (.ok b, log') := by
  rw [bind_apply] at h
  rcases hx : x log with ⟨r, mid⟩
  rw [hx] at h
  cases r with
  | error e => cases h
  | ok a => exact ⟨a, mid, rfl, h⟩

theorem of_eq_ok {r : Except Failure α} {log log' : Log} {a : α}
    (h : of r log = (.ok a, log')) : r = .ok a := by
  cases r with
  | error e => cases h
  | ok b => cases h; rfl

end Reported

namespace Failure

/-- How a failure to build is passed on: field faults of a record become an encoding fault. -/
def asEncoding (topic : Topic) : Failure → Failure
  | .invalid faults => .encoding (.record topic faults)
  | e => e

/-- Whether a failure to build is passed on as an encoding fault. -/
def isEncodable : Failure → Bool
  | .encoding _ | .invalid _ => true
  | _ => false

theorem asEncoding_of_isEncodable {e : Failure} (h : e.isEncodable = true) (topic : Topic) :
    ∃ fault, e.asEncoding topic = .encoding fault := by
  cases e with
  | encoding fault => exact ⟨fault, rfl⟩
  | invalid faults => exact ⟨.record topic faults, rfl⟩
  | _ => cases h

end Failure

namespace Surroundings

/-- The same surroundings, but for what was reported since. -/
def Reports (s s' : Surroundings) : Prop := ∃ log, s' = { s with log := s.log ++ log }

theorem Reports.refl (s : Surroundings) : s.Reports s := ⟨[], by simp⟩

theorem Reports.trans {s s' s'' : Surroundings} (h : s.Reports s') (h' : s'.Reports s'') :
    s.Reports s'' := by
  obtain ⟨log, rfl⟩ := h
  obtain ⟨log', rfl⟩ := h'
  exact ⟨log ++ log', by simp⟩

end Surroundings

namespace Emit

theorem bind_apply (x : Emit σ α) (f : α → Emit σ β) (w : World σ) :
    (x >>= f) w = match x w with
      | (.ok a, w') => f a w'
      | (.error e, w') => (.error e, w') := by
  change ExceptT.bindCont f (x w).1 (x w).2 = _
  rcases x w with ⟨r, w'⟩
  cases r <;> rfl

theorem pure_apply (a : α) (w : World σ) : (pure a : Emit σ α) w = (.ok a, w) := rfl

theorem bind_pure_apply (x : Emit σ α) (f : α → β) (w : World σ) :
    (x >>= fun a => pure (f a)) w = ((x w).1.map f, (x w).2) := by
  rw [bind_apply]
  rcases x w with ⟨r, w'⟩
  cases r <;> rfl

theorem build_apply (x : Build α) (w : World σ) :
    build x w = ((x w.surroundings).1, { w with surroundings := (x w.surroundings).2 }) := rfl

/-- How a step ends that starts in `w`: with an answer, with surroundings to which only reports were
added, with the transport it left and with certain series counted once more. -/
structure Ends (x : Emit σ α) (w : World σ) (reply : Except Failure α) (s : Surroundings) (left : σ)
    (counted : List Series) : Prop where
  reply : (x w).1 = reply
  surroundings : s.Reports (x w).2.surroundings
  transport : (x w).2.transport = left
  counters : (x w).2.counters = counted.foldl Counters.bump w.counters

/-- A step that cannot fail and leaves the transport as it is: it reports, and counts the series. -/
def Marks (x : Emit σ α) (a : α) (counted : List Series) : Prop :=
  ∀ w, Ends x w (.ok a) w.surroundings w.transport counted

section Ends

variable {x : Emit σ α} {f : α → Emit σ β} {act : Failure → Emit σ Failure} {w : World σ}
  {a : α} {e e' : Failure} {s : Surroundings} {left left' : σ} {counted counted' : List Series}

/-- What follows a step that returned starts in the world that the step left. -/
theorem Ends.bind {reply : Except Failure β} (first : Ends x w (.ok a) s left counted)
    (rest : ∀ w', w'.transport = left → Ends (f a) w' reply w'.surroundings left' counted') :
    Ends (x >>= f) w reply s left' (counted ++ counted') := by
  obtain ⟨answer, reports, kept, counters⟩ := first
  have run : (x >>= f) w = f a (x w).2 := by
    rw [bind_apply]
    rcases went : x w with ⟨r, w'⟩
    rw [went] at answer
    cases answer
    rfl
  have rest := rest (x w).2 kept
  constructor
  · rw [run]
    exact rest.reply
  · rw [run]
    exact reports.trans rest.surroundings
  · rw [run]
    exact rest.transport
  · rw [run, rest.counters, counters, List.foldl_append]

theorem Ends.bind_error (first : Ends x w (.error e) s left counted) :
    Ends (x >>= f) w (.error e) s left counted := by
  obtain ⟨answer, reports, kept, counters⟩ := first
  have run : (x >>= f) w = (.error e, (x w).2) := by
    rw [bind_apply]
    rcases went : x w with ⟨r, w'⟩
    rw [went] at answer
    cases answer
    rfl
  constructor <;> rw [run]
  · exact reports
  · exact kept
  · exact counters

theorem Ends.onFailure_ok (h : Ends x w (.ok a) s left counted) :
    Ends (onFailure x act) w (.ok a) s left counted := by
  obtain ⟨answer, reports, kept, counters⟩ := h
  have run : onFailure x act w = (.ok a, (x w).2) := by
    unfold onFailure
    rcases went : x w with ⟨r, w'⟩
    rw [went] at answer
    cases answer
    rfl
  constructor <;> rw [run]
  · exact reports
  · exact kept
  · exact counters

theorem Ends.onFailure_error (h : Ends x w (.error e) s left counted)
    (marks : Marks (act e) e' counted') :
    Ends (onFailure x act) w (.error e') s left (counted ++ counted') := by
  obtain ⟨answer, reports, kept, counters⟩ := h
  have acted := marks (x w).2
  have run : onFailure x act w = (.error e', (act e (x w).2).2) := by
    have replied := acted.reply
    unfold onFailure
    rcases went : x w with ⟨r, w'⟩
    rw [went] at answer replied
    cases answer
    rcases gone : act e w' with ⟨r', w''⟩
    rw [gone] at replied
    cases replied
    simp only [gone]
  constructor
  · rw [run]
  · rw [run]
    exact reports.trans acted.surroundings
  · rw [run]
    exact acted.transport.trans kept
  · rw [run]
    dsimp only
    rw [acted.counters, counters, List.foldl_append]

end Ends

theorem marks_pure (a : α) : Marks (pure a : Emit σ α) a [] :=
  fun _ => ⟨rfl, .refl _, rfl, rfl⟩

theorem marks_report (level : Level) (source : LogSource) (text : CodeText) :
    Marks (report (σ := σ) level source text) () [] :=
  fun _ => ⟨rfl, ⟨_, rfl⟩, rfl, rfl⟩

theorem Marks.bind {x : Emit σ α} {f : α → Emit σ β} {a : α} {b : β} {ss ss' : List Series}
    (first : Marks x a ss) (rest : Marks (f a) b ss') : Marks (x >>= f) b (ss ++ ss') := by
  intro w
  apply (first w).bind
  intro w' kept
  rw [← kept]
  exact rest w'

end Emit

namespace Emitter

/-- What an emitter counts of the given series: nothing, unless it is metered. -/
def counted (em : Emitter) (ss : List Series) : List Series := if em.metered then ss else []

theorem counted_nil (em : Emitter) : em.counted [] = [] := ite_self []

theorem counted_append (em : Emitter) (ss ss' : List Series) :
    em.counted ss ++ em.counted ss' = em.counted (ss ++ ss') := by
  unfold counted
  split <;> rfl

theorem marks_count (em : Emitter) (s : Series) :
    Emit.Marks (em.count (σ := σ) s) () (em.counted [s]) := by
  intro w
  unfold count counted
  split <;> exact ⟨rfl, .refl _, rfl, rfl⟩

theorem marks_rejected (em : Emitter) (topic : Topic) (text : String) :
    Emit.Marks (em.rejected (σ := σ) topic text) () (em.counted [.encodingError topic.id]) :=
  (Emit.marks_report _ _ _).bind (em.marks_count _)

theorem marks_publishFailed (em : Emitter) (e : Envelope) :
    Emit.Marks (em.publishFailed (σ := σ) e) () (em.counted [.publishFailure e.topic.id]) :=
  (Emit.marks_report _ _ _).bind (em.marks_count _)

theorem marks_emitted (em : Emitter) (e : Emission) :
    Emit.Marks (em.emitted (σ := σ) e) () (em.counted
      [.standardPublished e.standard.topic.id, .legacyPublished e.standard.topic.id]) := by
  have both := (em.marks_count (σ := σ) (.standardPublished e.standard.topic.id)).bind
    (f := fun _ => em.count _) (em.marks_count (.legacyPublished e.standard.topic.id))
  rw [counted_append] at both
  exact (Emit.marks_report _ _ _).bind both

end Emitter

end EventEnvelope
