import EventEnvelope.Proofs.AlikeSurroundings
import EventEnvelope.Proofs.ClockReading

/-! The two ways to emit a standardized record by itself: through an emitter made for it, or without
one. The one settles the root topic first and passes a failure to build on as an encoding fault; the
other settles the root once the record is built. Main statement: below a valid root both make the
same attempt, if any, and read the clock equally often; they answer the same, but for settings that
cannot be read when the record needs them. -/

namespace EventEnvelope

variable {σ α β : Type}

/-- Emits a standardized record through an emitter made for it. -/
def emitThrough (t : Transport σ) (rootTopic : Datum) (metered : Bool)
    (topic actor data metadata : Datum) : Emit σ Envelope := do
  let em ← Emit.build (Build.emitter rootTopic metered)
  em.emitStandard t topic actor data metadata

namespace Emit

/-- What is seen of a step from outside: its answer, the transport and how far the clock was read.
-/
structure Leaves (x : Emit σ α) (w : World σ) (reply : Except Failure α) (left : σ) (ticks : Nat) :
    Prop where
  reply : (x w).1 = reply
  transport : (x w).2.transport = left
  ticks : (x w).2.surroundings.ticks = ticks

theorem Ends.leaves {x : Emit σ α} {w : World σ} {reply : Except Failure α} {s : Surroundings}
    {left : σ} {counted : List Series} (h : Ends x w reply s left counted) :
    Leaves x w reply left s.ticks := by
  obtain ⟨log, reported⟩ := h.surroundings
  exact ⟨h.reply, h.transport, by rw [reported]⟩

section Steps

variable {x : Build α} {f : α → Emit σ β} {w : World σ} {s : Surroundings}

theorem leaves_build_error {e : Failure} (ran : x w.surroundings = (.error e, s)) :
    Leaves (build x >>= f) w (.error e) w.transport s.ticks := by
  have run : (build x >>= f) w = (.error e, { w with surroundings := s }) := by
    rw [bind_apply, build_apply, ran]
  constructor <;> rw [run]

theorem leaves_build_ok {a : α} {reply : Except Failure β} {left : σ} {ticks : Nat}
    (ran : x w.surroundings = (.ok a, s))
    (rest : Leaves (f a) { w with surroundings := s } reply left ticks) :
    Leaves (build x >>= f) w reply left ticks := by
  have run : (build x >>= f) w = f a { w with surroundings := s } := by
    rw [bind_apply, build_apply, ran]
  constructor <;> rw [run]
  · exact rest.reply
  · exact rest.transport
  · exact rest.ticks

/-- A record is handed over, and what follows only marks that it was accepted. -/
theorem leaves_publish (t : Transport σ) (p : Publication) (w : World σ) {done : Emit σ Unit}
    {ss : List Series} (marks : Marks done () ss) (a : α) :
    Leaves (do
        publish t p
        done
        return a) w ((t.handOver w.transport [p]).1.map fun _ => a) (t.handOver w.transport [p]).2
      w.surroundings.ticks := by
  have published := ends_publish t p w
  cases handed : (t.handOver w.transport [p]).1 with
  | error e =>
    rw [handed] at published
    exact published.bind_error.leaves
  | ok _ =>
    rw [handed] at published
    apply Ends.leaves
    apply published.bind
    intro w' kept
    rw [← kept]
    exact marks.returning a w'

end Steps

end Emit

namespace Build

/-- An envelope for a topic that is known by another name. -/
theorem envelope_of_known {topic : Datum} {found : Topic} (known : topic.topic? = some found)
    (actor data metadata given : Datum) :
    envelope topic actor data metadata given
      = envelope (.topic found) actor data metadata given := by
  simp only [envelope, topic_eq, known, Datum.topic?_topic]
  rfl

theorem envelope_of_unknown {topic : Datum} (unknown : topic.topic? = none)
    (actor data metadata given : Datum) :
    envelope topic actor data metadata given = of (.error (.unknownTopic topic)) := by
  simp only [envelope, topic_eq, unknown]
  rfl

end Build

section Paths

variable {t : Transport σ} {w : World σ} {rootTopic topic actor data metadata : Datum}
  {root : Symbol}
  {e : Envelope} {failure : Failure} {s s' : Surroundings}

namespace Emitter

theorem leaves_unknown (em : Emitter) (unknown : topic.topic? = none) :
    Emit.Leaves (em.emitStandard t topic actor data metadata) w (.error (.unknownTopic topic))
      w.transport w.surroundings.ticks := by
  unfold emitStandard
  rw [Build.topic_eq, unknown]
  exact (Emit.ends_build (Build.of (.error (.unknownTopic topic))) w).bind_error.leaves

variable {found : Topic}

theorem emits_known (em : Emitter) (known : topic.topic? = some found) :
    em.Emits t found Records.ofEnvelope (em.emitStandard t topic actor data metadata)
      (Build.envelope topic actor data metadata .null) w := by
  have emits := em.emits_standard t found actor data metadata w
  unfold emitStandard
  rw [Build.envelope_of_known known, Build.topic_eq, known]
  exact emits

theorem leaves_unbuilt (em : Emitter) (known : topic.topic? = some found)
    (unbuilt : Build.envelope topic actor data metadata .null w.surroundings
      = (.error failure, s)) :
    Emit.Leaves (em.emitStandard t topic actor data metadata) w
      (.error (failure.asEncoding found)) w.transport s.ticks := by
  cases em.emits_known (t := t) (w := w) known with
  | rejected built ends =>
    rw [unbuilt] at built ends
    cases built
    exact ends.leaves
  | refused built handed ends | published built handed ends =>
    rw [unbuilt] at built
    cases built

theorem leaves_built (em : Emitter) (known : topic.topic? = some found)
    (made : Build.envelope topic actor data metadata .null w.surroundings = (.ok e, s)) :
    Emit.Leaves (em.emitStandard t topic actor data metadata) w
      ((t.handOver w.transport [e.publication em.root]).1.map fun _ => e)
      (t.handOver w.transport [e.publication em.root]).2 s.ticks := by
  cases em.emits_known (t := t) (w := w) known with
  | rejected built ends =>
    rw [made] at built
    cases built
  | refused built handed ends | published built handed ends =>
    rw [made] at built ends
    cases built
    change t.handOver w.transport [e.publication em.root] = _ at handed
    rw [handed]
    exact ends.leaves

end Emitter

theorem emitOnce_unbuilt
    (unbuilt : Build.envelope topic actor data metadata .null w.surroundings
      = (.error failure, s)) :
    Emit.Leaves (emitOnce t rootTopic topic actor data metadata) w (.error failure) w.transport
      s.ticks :=
  Emit.leaves_build_error unbuilt

theorem emitOnce_rootless
    (made : Build.envelope topic actor data metadata .null w.surroundings = (.ok e, s))
    (invalid : Build.root rootTopic s = (.error failure, s')) :
    Emit.Leaves (emitOnce t rootTopic topic actor data metadata) w (.error failure) w.transport
      s'.ticks :=
  Emit.leaves_build_ok made (Emit.leaves_build_error invalid)

theorem emitOnce_built
    (made : Build.envelope topic actor data metadata .null w.surroundings = (.ok e, s))
    (valid : Build.root rootTopic s = (.ok root, s')) :
    Emit.Leaves (emitOnce t rootTopic topic actor data metadata) w
      ((t.handOver w.transport [e.publication root]).1.map fun _ => e)
      (t.handOver w.transport [e.publication root]).2 s'.ticks :=
  Emit.leaves_build_ok made (Emit.leaves_build_ok valid
    (Emit.leaves_publish t _ _ (Emit.marks_report _ _ _) e))

end Paths

/-- Where the two ways differ: the settings cannot be read, so a record that needs them is refused.
One way answers with the faults of the settings, the other with an encoding fault about them. -/
inductive Unsettled (s : Surroundings) : Except Failure Envelope → Except Failure Envelope → Prop
  | mk (faults : List Fault) (topic : Topic) (unread : s.config.settings.1 = .error faults) :
      Unsettled s (.error (.encoding (.record topic faults))) (.error (.invalid faults))

/-- Below a root that is valid the two ways leave the same transport behind after as many readings
of the clock, and answer the same unless the settings cannot be read; then nothing was handed over.
-/
theorem paths_meet (t : Transport σ) (w : World σ) {rootTopic : Datum} {root : Symbol}
    (valid : (Build.root rootTopic w.surroundings).1 = .ok root) (metered : Bool)
    (topic actor data metadata : Datum) :
    ∃ reply reply' left ticks,
      Emit.Leaves (emitThrough t rootTopic metered topic actor data metadata) w reply left ticks ∧
      Emit.Leaves (emitOnce t rootTopic topic actor data metadata) w reply' left ticks ∧
      (left = w.transport ∧ (reply = reply' ∨ Unsettled w.surroundings reply reply') ∨
        ∃ e : Envelope, left = (t.handOver w.transport [e.publication root]).2 ∧
          reply = reply') := by
  have asks := Build.asks_root rootTopic
  have entered := asks.alike w.surroundings
  rcases settled : Build.root rootTopic w.surroundings with ⟨r, s⟩
  rw [settled] at valid entered
  cases valid
  have emitter : Build.emitter rootTopic metered w.surroundings = (.ok ⟨root, metered⟩, s) := by
    rw [Build.emitter, Build.bind_pure_apply, settled]
    rfl
  have through {reply : Except Failure Envelope} {left : σ} {ticks : Nat}
      (h : Emit.Leaves (Emitter.emitStandard ⟨root, metered⟩ t topic actor data metadata)
        { w with surroundings := s } reply left ticks) :
      Emit.Leaves (emitThrough t rootTopic metered topic actor data metadata) w reply left ticks :=
    Emit.leaves_build_ok emitter h
  cases known : topic.topic? with
  | none =>
    have unbuilt := congrFun (Build.envelope_of_unknown known actor data metadata .null)
      w.surroundings
    have left := through (Emitter.leaves_unknown ⟨root, metered⟩ known)
    rw [entered.ticks] at left
    exact ⟨_, _, _, _, left, emitOnce_unbuilt unbuilt, .inl ⟨rfl, .inl rfl⟩⟩
  | some found =>
    have repeats := Build.repeats_envelope topic actor data metadata .null
    have same := repeats.answer w.surroundings s entered
    have alike := repeats.alike w.surroundings s entered
    have told := repeats.settings w.surroundings
    have unread := repeats.unread w.surroundings
    rcases built : Build.envelope topic actor data metadata .null w.surroundings with ⟨result, mid⟩
    rcases built' : Build.envelope topic actor data metadata .null s with ⟨result', mid'⟩
    rw [built, built'] at same alike
    rw [built] at told unread
    cases same
    cases result with
    | error failure =>
      have left := through (Emitter.leaves_unbuilt ⟨root, metered⟩ known built')
      rw [alike.ticks] at left
      refine ⟨_, _, _, _, left, emitOnce_unbuilt built, .inl ⟨rfl, ?_⟩⟩
      cases failure with
      | invalid faults => exact .inr (.mk faults found (unread faults rfl))
      | _ => exact .inl rfl
    | ok e =>
      have left := through (Emitter.leaves_built ⟨root, metered⟩ known built')
      have valid : (Build.root rootTopic mid).1 = .ok root := by
        rw [asks.answer w.surroundings mid told, settled]
      have ticks := (asks.alike mid).ticks
      rw [alike.ticks, ← ticks] at left
      exact ⟨_, _, _, _, left, emitOnce_built built (Prod.ext valid rfl), .inr ⟨e, rfl, rfl⟩⟩

/-- A root that is not valid keeps both ways from publishing. -/
theorem paths_part (t : Transport σ) (w : World σ) {rootTopic : Datum} {failure : Failure}
    (invalid : (Build.root rootTopic w.surroundings).1 = .error failure) (metered : Bool)
    (topic actor data metadata : Datum) :
    (emitThrough t rootTopic metered topic actor data metadata w).2.transport = w.transport ∧
      (emitOnce t rootTopic topic actor data metadata w).2.transport = w.transport := by
  have asks := Build.asks_root rootTopic
  rcases settled : Build.root rootTopic w.surroundings with ⟨r, s⟩
  rw [settled] at invalid
  cases invalid
  have emitter : Build.emitter rootTopic metered w.surroundings = (.error failure, s) := by
    rw [Build.emitter, Build.bind_pure_apply, settled]
    rfl
  have through : Emit.Leaves (emitThrough t rootTopic metered topic actor data metadata) w
      (.error failure) w.transport s.ticks := Emit.leaves_build_error emitter
  refine ⟨through.transport, ?_⟩
  have told := (Build.repeats_envelope topic actor data metadata .null).settings w.surroundings
  rcases built : Build.envelope topic actor data metadata .null w.surroundings with ⟨result, mid⟩
  rw [built] at told
  cases result with
  | error failure => exact (emitOnce_unbuilt built).transport
  | ok e =>
    have invalid : (Build.root rootTopic mid).1 = .error failure := by
      rw [asks.answer w.surroundings mid told, settled]
    exact (emitOnce_rootless built (Prod.ext invalid rfl)).transport

/-- One record that is handed over is one attempt on record. -/
theorem Transport.handOver_observed_one (t : Transport σ) (s : σ × List Attempt) (p : Publication) :
    (t.observed.handOver s [p]).2.2 = s.2 ++ [⟨p, (t s.1 p).outcome⟩] := by
  simp only [handOver]
  split <;> rfl

/-- Whatever the root that is asked for, the arguments and the transport: with a valid root the two
ways make the same attempt, if any, leave the same transport and read the clock equally often; they
answer the same, or the settings cannot be read and neither makes an attempt. Without a valid root
nothing is attempted. -/
theorem emissions_agree (t : Transport σ) (w : World σ) (rootTopic : Datum) (metered : Bool)
    (topic actor data metadata : Datum) :
    let through := emitThrough t.observed rootTopic metered topic actor data metadata w.observed
    let once := emitOnce t.observed rootTopic topic actor data metadata w.observed
    (∀ root, (Build.root rootTopic w.surroundings).1 = .ok root →
      through.2.transport = once.2.transport ∧
      (through.2.transport.2 = [] ∨
        ∃ e outcome, through.2.transport.2 = [⟨Envelope.publication e root, outcome⟩]) ∧
      through.2.surroundings.ticks = once.2.surroundings.ticks ∧
      (through.1 = once.1 ∨
        through.2.transport.2 = [] ∧ Unsettled w.surroundings through.1 once.1)) ∧
    (∀ failure, (Build.root rootTopic w.surroundings).1 = .error failure →
      through.2.transport.2 = [] ∧ once.2.transport.2 = []) := by
  intro through once
  constructor
  · intro root valid
    obtain ⟨reply, reply', left, ticks, seen, seen', ends⟩ :=
      paths_meet t.observed w.observed valid metered topic actor data metadata
    have transport : through.2.transport = left := seen.transport
    have transport' : once.2.transport = left := seen'.transport
    have answers : through.1 = reply := seen.reply
    have answers' : once.1 = reply' := seen'.reply
    refine ⟨transport.trans transport'.symm, ?_, seen.ticks.trans seen'.ticks.symm, ?_⟩
    all_goals rw [transport]
    · rcases ends with ⟨rfl, _⟩ | ⟨e, rfl, _⟩
      · exact .inl rfl
      · exact .inr ⟨e, _, t.handOver_observed_one (w.transport, []) (e.publication root)⟩
    · rw [answers, answers']
      rcases ends with ⟨rfl, same | unsettled⟩ | ⟨e, rfl, same⟩
      · exact .inl same
      · exact .inr ⟨rfl, unsettled⟩
      · exact .inl same
  · intro failure invalid
    obtain ⟨kept, kept'⟩ :=
      paths_part t.observed w.observed invalid metered topic actor data metadata
    exact ⟨congrArg Prod.snd kept, congrArg Prod.snd kept'⟩

/-- Surroundings in which the settings cannot be read: no symbol may be shorter than one letter. -/
def Surroundings.unreadable : Surroundings :=
  { ledger with config := .ofEnvironment [("STELLARA_SYMBOL_MAX_LENGTH", "0")] }

/-- A text among the data has to be interned, and the settings do not tell how long it may be. -/
theorem emissions_differ_unreadable :
    let w : World (List Publication) := ⟨.unreadable, [], []⟩
    let through := emitThrough .keeping (.symbol ⟨"r"⟩) false (.topic .transfer) .null
      (.list [.plain "text"]) (.map []) w
    let once := emitOnce .keeping (.symbol ⟨"r"⟩) (.topic .transfer) .null
      (.list [.plain "text"]) (.map []) w
    (Build.root (.symbol ⟨"r"⟩) w.surroundings).1 = .ok ⟨"r"⟩ ∧ through.1 ≠ once.1 ∧
      Unsettled w.surroundings through.1 once.1 := by
  intro w through once
  obtain ⟨faults, unread, answer, answer'⟩ : ∃ faults,
      w.surroundings.config.settings.1 = .error faults ∧
        through.1 = .error (.encoding (.record .transfer faults)) ∧
        once.1 = .error (.invalid faults) := ⟨_, rfl, rfl, rfl⟩
  rw [answer, answer']
  exact ⟨rfl, by simp, .mk faults .transfer unread⟩

/-- A record below a root that is named by text, with one attempt either way. -/
theorem emissions_agree_burn :
    let w : World (List Publication) := ⟨.ledger, [], []⟩
    let through := emitThrough Transport.keeping.observed (.plain "r") true (.plain "burn") .null
      (.list [.plain "text"]) (.map []) w.observed
    let once := emitOnce Transport.keeping.observed (.plain "r") (.plain "burn") .null
      (.list [.plain "text"]) (.map []) w.observed
    through.2.transport.2.length = 1 ∧ through.2.transport = once.2.transport ∧
      through.1 = once.1 := by
  intro w through once
  have valid : (Build.root (.plain "r") w.surroundings).1 = .ok ⟨"r"⟩ := by rfl
  obtain ⟨transport, _, _, answers⟩ := (emissions_agree .keeping w (.plain "r") true
    (.plain "burn") .null (.list [.plain "text"]) (.map [])).1 ⟨"r"⟩ valid
  have attempted : through.2.transport.2.length = 1 := by rfl
  refine ⟨attempted, transport, answers.resolve_right ?_⟩
  rintro ⟨none, _⟩
  have empty : through.2.transport.2 = [] := none
  rw [empty] at attempted
  cases attempted

end EventEnvelope
