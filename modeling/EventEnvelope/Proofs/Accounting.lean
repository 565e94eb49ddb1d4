import EventEnvelope.Proofs.Counting
import EventEnvelope.Proofs.PublishOrder
import EventEnvelope.Proofs.Timeless
import EventEnvelope.Proofs.TypedEnvelope

/-! Outcome accounting. Where the clock answers, a call about a topic is rejected, fails or is
published, and the counters of its topic tell which; other topics keep theirs. Main statement: over
a session the outcomes that are counted of a topic add up to the calls that were about it. -/

namespace EventEnvelope

variable {σ α β : Type}

/-- The clock may say anything, but it does not raise. -/
def Surroundings.Answers (s : Surroundings) : Prop := ∀ n, ∃ d, s.clock n = .value d

namespace Build

/-- A step that, where the clock answers, fails only with what is passed on as an encoding fault. -/
def OnlyRejects (x : Build α) : Prop :=
  ∀ s : Surroundings, s.Answers →
    (x s).2.Answers ∧ ∀ e, (x s).1 = .error e → e.isEncodable = true

theorem Timeless.onlyRejects {x : Build α} (h : Timeless x) : OnlyRejects x := by
  intro s answers
  constructor
  · intro n
    rw [(h.still s).clock]
    exact answers n
  · exact h.failure s

theorem OnlyRejects.bind {x : Build α} {f : α → Build β} (hx : OnlyRejects x)
    (hf : ∀ a, OnlyRejects (f a)) : OnlyRejects (x >>= f) := by
  intro s answers
  obtain ⟨kept, rejects⟩ := hx s answers
  rw [bind_apply]
  rcases went : x s with ⟨r, mid⟩
  rw [went] at kept rejects
  cases r with
  | error e =>
    refine ⟨kept, fun e' same => ?_⟩
    cases same
    exact rejects e rfl
  | ok a => exact hf a mid kept

theorem onlyRejects_now : OnlyRejects now := by
  intro s answers
  obtain ⟨d, told⟩ := answers s.ticks
  unfold now
  rw [told]
  exact ⟨answers, fun e same => by cases same⟩

theorem onlyRejects_stamp (d : Draft) (given : Datum) : OnlyRejects (stamp d given) := by
  apply timeless_identity.onlyRejects.bind
  intro identity
  apply (timeless_admitted _).onlyRejects.bind
  intro emitter
  -- however the time was come by, the stamps are checked in the same way
  split
  all_goals
    apply OnlyRejects.bind
    case hf =>
      intro time
      apply timeless_version.onlyRejects.bind
      intro current
      cases Draft.stamps time current with
      | ok pair => exact (timeless_pure _).onlyRejects
      | error faults => exact (timeless_throw rfl).onlyRejects
  · exact onlyRejects_now
  · exact (timeless_pure _).onlyRejects

theorem onlyRejects_envelope (topic : Topic) {actor data : Datum} {ds : List Datum}
    (listed : data.elements? = some ds) (es : List (Datum × Datum)) (given : Datum) :
    OnlyRejects (envelope (.topic topic) actor data (.map es) given) :=
  (timeless_pure topic).onlyRejects.bind fun _ =>
    (timeless_draft listed es).onlyRejects.bind fun d => onlyRejects_stamp d given

end Build

theorem Operation.onlyRejects_build (op : Operation) (args : CallerArguments) :
    (op.build args).OnlyRejects := by
  apply (op.layout.timeless_check args _ _).onlyRejects.bind
  intro a
  apply Build.onlyRejects_now.bind
  intro now
  apply (op.layout.timeless_settle op.name args _ a).onlyRejects.bind
  intro a'
  apply (Build.timeless_admitted _).onlyRejects.bind
  intro m
  apply (Build.onlyRejects_stamp _ now).bind
  intro standard
  split
  · exact (Build.timeless_pure _).onlyRejects
  · exact (Build.timeless_throw rfl).onlyRejects

namespace Request

/-- A request for a standardized record by itself brings values that can be listed and metadata in a
map, at least where it names a topic. -/
def IsListed : Request → Prop
  | operation _ _ _ => True
  | standard positional named => ∀ args,
    Arguments.bind Emitter.standardParameters positional named = .ok args →
      (Arguments.get args "event_type").topic? ≠ none →
        (∃ ds, (Arguments.get args "data").elements? = some ds) ∧
          ∃ es, Arguments.get args "metadata" = .map es

theorem isEncodable_of_build {q : Request} {topic : Topic} {s : Surroundings} {e : Failure}
    (about : q.topic? = some topic) (listed : q.IsListed) (answers : s.Answers)
    (h : (q.build s).1 = .error e) : e.isEncodable = true := by
  cases about_of_topic? about with
  | @operation op _ _ args fits own builds =>
    rw [builds] at h
    exact ((op.onlyRejects_build args).bind
      (fun _ => (Build.timeless_pure _).onlyRejects) s answers).2 e h
  | @standard positional named args fits own builds =>
    obtain ⟨⟨ds, data⟩, es, metadata⟩ := listed args fits (by simp [own])
    rw [builds, metadata] at h
    exact ((Build.onlyRejects_envelope topic data es .null).bind
      (fun _ => (Build.timeless_pure _).onlyRejects) s answers).2 e h

end Request

/-- Attempts go on record as they are made, and the first refusal among them is the answer. -/
theorem Transport.handOver_observed (t : Transport σ) (s : σ × List Attempt)
    (ps : List Publication) :
    ∃ made, (t.observed.handOver s ps).2.2 = s.2 ++ made ∧
      (∀ e, (t.observed.handOver s ps).1 = .error e → ∃ a ∈ made, a.outcome = .error e) ∧
      ((t.observed.handOver s ps).1 = .ok () → ∀ a ∈ made, a.outcome = .ok ()) := by
  induction ps generalizing s with
  | nil => exact ⟨[], by simp [handOver]⟩
  | cons p ps ih =>
    unfold handOver
    cases outcome : (t.observed s p).outcome with
    | error e =>
      refine ⟨[⟨p, .error e⟩], ?_, ?_, ?_⟩
      · exact congrArg (fun r => s.2 ++ [⟨p, r⟩]) outcome
      · rintro e' same
        cases same
        exact ⟨_, List.mem_singleton_self _, rfl⟩
      · intro same
        cases same
    | ok _ =>
      obtain ⟨made, recorded, refused, accepted⟩ := ih (t.observed s p).state
      refine ⟨⟨p, .ok ()⟩ :: made, ?_, ?_, ?_⟩
      · change _ = _ ++ ([⟨p, .ok ()⟩] ++ made)
        rw [← List.append_assoc]
        exact recorded.trans (congrArg (fun r => s.2 ++ [⟨p, r⟩] ++ made) outcome)
      · intro e same
        obtain ⟨a, listed, own⟩ := refused e same
        exact ⟨a, List.mem_cons_of_mem _ listed, own⟩
      · intro same
        rw [List.forall_mem_cons]
        exact ⟨rfl, accepted same⟩

namespace Turn

/-- The attempts to publish that are on record once the turn is observed. -/
def made (turn : Turn σ) (t : Transport σ) : List Attempt :=
  (turn.call.request.perform turn.call.emitter t.observed turn.before.observed).2.transport.2

/-- The turn adds to the tally of one topic, and leaves those of the others. -/
def Adds (turn : Turn σ) (topic : Topic) (added : Tally) : Prop :=
  ∀ other, turn.after.counters.tally other
    = turn.before.counters.tally other + if other = topic then added else 0

/-- How a turn is accounted for. A request that is about no topic changes no counter. One that is
about a topic is rejected before any attempt, or fails with what one of its attempts raised, or is
published with all of its attempts accepted. -/
inductive IsAccounted (turn : Turn σ) (made : List Attempt) : Prop where
  | unasked {e : Failure} (topicless : turn.call.request.topic? = none) (silent : made = [])
      (replied : turn.reply = .error e) (kept : turn.after.counters = turn.before.counters)
  | rejected {topic : Topic} {fault : EncodingFault}
      (about : turn.call.request.topic? = some topic) (silent : made = [])
      (replied : turn.reply = .error (.encoding fault)) (adds : turn.Adds topic ⟨1, 0, 0, 0⟩)
  | failed {topic : Topic} {e : Failure} (about : turn.call.request.topic? = some topic)
      (refused : ∃ a ∈ made, a.outcome = .error e) (replied : turn.reply = .error e)
      (adds : turn.Adds topic ⟨0, 1, 0, 0⟩)
  | published {topic : Topic} {r : Records} (about : turn.call.request.topic? = some topic)
      (accepted : ∀ a ∈ made, a.outcome = .ok ()) (replied : turn.reply = .ok r)
      (adds : turn.Adds topic ⟨0, 0, 1, if turn.call.request.isStandard then 0 else 1⟩)

theorem adds_of_counted {turn : Turn σ} {topic : Topic} {ss : List Series} {added : Tally}
    (formed : turn.before.counters.IsFormed) (own : ∀ s ∈ ss, s.IsOf topic)
    (told : Tally.ofSeries topic ss = added)
    (counted : turn.after.counters = ss.foldl Counters.bump turn.before.counters) :
    turn.Adds topic added := by
  intro other
  rw [counted, Counters.tally_foldl_bump formed fun s hs => (own s hs).formed]
  by_cases same : other = topic
  · rw [if_pos same, same, told]
  · rw [if_neg same, Tally.ofSeries_of_ne own same]

end Turn

theorem Series.isOf_encodingError (topic : Topic) :
    ∀ s ∈ [encodingError topic.id], s.IsOf topic := by
  rw [List.forall_mem_singleton]
  exact ⟨rfl, rfl⟩

theorem Series.isOf_publishFailure (topic : Topic) :
    ∀ s ∈ [publishFailure topic.id], s.IsOf topic := by
  rw [List.forall_mem_singleton]
  exact ⟨rfl, rfl⟩

theorem Emitter.isOf_rejections (topic : Topic) (e : Failure) :
    ∀ s ∈ rejections topic e, s.IsOf topic := by
  unfold rejections
  split
  · exact Series.isOf_encodingError topic
  · exact Series.isOf_encodingError topic
  · simp

theorem Records.isOf_series (r : Records) (topic : Topic) : ∀ s ∈ r.series topic, s.IsOf topic := by
  intro s hs
  rcases List.mem_cons.mp hs with rfl | legacy
  · exact ⟨rfl, rfl⟩
  · cases own : r.legacy with
    | none => simp [own] at legacy
    | some p =>
      simp only [own, Option.map_some, Option.toList_some, List.mem_singleton] at legacy
      subst legacy
      exact ⟨rfl, rfl⟩

theorem Records.ofSeries_series (r : Records) (topic : Topic) :
    Tally.ofSeries topic (r.series topic) = ⟨0, 0, 1, if r.legacy.isNone then 0 else 1⟩ := by
  cases own : r.legacy <;>
    simp [Tally.ofSeries, series, own, Series.encodingError, Series.publishFailure,
      Series.standardPublished, Series.legacyPublished]

theorem Emitter.counted_of_metered {em : Emitter} (h : em.metered = true) (ss : List Series) :
    em.counted ss = ss := if_pos h

section Turn

variable {c : Call} {w : World σ}

theorem Call.turn_isAccounted (t : Transport σ) (metered : c.emitter.metered = true)
    (listed : c.request.IsListed) (answers : (w.enter c.host).surroundings.Answers)
    (formed : w.counters.IsFormed) : (c.turn t w).IsAccounted ((c.turn t w).made t) := by
  -- observed or not, the turn is the same but for the record of attempts
  have same := c.request.mirrors_perform c.emitter t.observed_mirrors (w.enter c.host).observed
  have replied : (c.turn t w).reply
      = (c.request.perform c.emitter t.observed (w.enter c.host).observed).1 :=
    congrArg Prod.fst same
  have counters : (c.turn t w).after.counters
      = (c.request.perform c.emitter t.observed (w.enter c.host).observed).2.counters :=
    congrArg (fun r => r.2.counters) same
  have recorded : (c.turn t w).made t
      = (c.request.perform c.emitter t.observed (w.enter c.host).observed).2.transport.2 := rfl
  have handed := t.handOver_observed (w.enter c.host).observed.transport
  cases c.request.performed c.emitter t.observed (w.enter c.host).observed with
  | unasked topicless built ends =>
    refine .unasked topicless ?_ (replied.trans ends.reply) (counters.trans ends.counters)
    rw [recorded, ends.transport]
    rfl
  | @asked topic about emits =>
    cases emits with
    | @rejected e built ends =>
      have encodable := Request.isEncodable_of_build about listed answers built
      obtain ⟨fault, encoded⟩ := Failure.asEncoding_of_isEncodable encodable topic
      rw [Emitter.rejections_of_isEncodable topic encodable,
        Emitter.counted_of_metered metered] at ends
      refine .rejected about ?_ (replied.trans (encoded ▸ ends.reply)) ?_
      · rw [recorded, ends.transport]
        rfl
      · exact Turn.adds_of_counted formed (Series.isOf_encodingError topic)
          (Tally.ofSeries_encodingError topic) (counters.trans ends.counters)
    | @refused r e left built refusal ends =>
      rw [Emitter.counted_of_metered metered] at ends
      obtain ⟨made, added, refused, _⟩ := handed (r.publications c.emitter.root)
      rw [id_eq] at refusal
      rw [refusal] at added refused
      refine .failed about ?_ (replied.trans ends.reply) ?_
      · rw [recorded, ends.transport, added]
        exact refused e rfl
      · exact Turn.adds_of_counted formed (Series.isOf_publishFailure topic)
          (Tally.ofSeries_publishFailure topic) (counters.trans ends.counters)
    | @published r left built acceptance ends =>
      rw [Emitter.counted_of_metered metered] at ends
      obtain ⟨made, added, _, accepted⟩ := handed (r.publications c.emitter.root)
      rw [id_eq] at acceptance
      rw [acceptance] at added accepted
      have legacy : r.legacy.isNone = c.request.isStandard :=
        Request.legacy_isNone (Prod.ext built rfl)
      refine .published about ?_ (replied.trans ends.reply) ?_
      · rw [recorded, ends.transport, added]
        exact accepted rfl
      · apply Turn.adds_of_counted formed (r.isOf_series topic) _ (counters.trans ends.counters)
        rw [r.ofSeries_series, legacy]
        rfl

theorem Call.turn_isFormed (c : Call) (t : Transport σ) (formed : w.counters.IsFormed) :
    (c.turn t w).after.counters.IsFormed := by
  have bumped {topic : Topic} {ss : List Series} {x : Except Failure Records} {s : Surroundings}
      {left : σ} (own : ∀ s ∈ ss, s.IsOf topic)
      (ends : Emit.Ends (c.request.perform c.emitter t) (w.enter c.host) x s left
        (c.emitter.counted ss)) : (c.turn t w).after.counters.IsFormed := by
    refine ends.counters ▸ Counters.IsFormed.foldl_bump formed ?_
    unfold Emitter.counted
    split
    · exact fun s hs => (own s hs).formed
    · simp
  cases c.request.performed c.emitter t (w.enter c.host) with
  | unasked topicless built ends => exact ends.counters ▸ formed
  | @asked topic about emits =>
    cases emits with
    | @rejected e built ends => exact bumped (Emitter.isOf_rejections topic e) ends
    | refused built refusal ends => exact bumped (Series.isOf_publishFailure topic) ends
    | published built acceptance ends => exact bumped (Records.isOf_series _ topic) ends

end Turn

/-- A turn of a session is the turn of one of its calls, in a world that keeps what every turn
keeps. -/
theorem exists_of_mem_turns {t : Transport σ} {P : World σ → Prop}
    (step : ∀ (c : Call) (w : World σ), P w → P (c.turn t w).after) {w : World σ} (start : P w)
    {cs : List Call} {turn : Turn σ} (h : turn ∈ turns t w cs) :
    ∃ c ∈ cs, ∃ w', P w' ∧ turn = c.turn t w' := by
  induction cs generalizing w with
  | nil => cases h
  | cons c cs ih =>
    rcases List.mem_cons.mp h with rfl | rest
    · exact ⟨c, List.mem_cons_self, w, start, rfl⟩
    · obtain ⟨c', listed, found⟩ := ih (step c w start) rest
      exact ⟨c', List.mem_cons_of_mem _ listed, found⟩

/-- From one tally to another there are so many outcomes more, and as many older records as
standardized ones. -/
structure Tally.Grows (before after : Tally) (outcomes : Nat) : Prop where
  total : after.rejected + after.failed + after.standard
    = before.rejected + before.failed + before.standard + outcomes
  paired : after.legacy + before.standard = before.legacy + after.standard

namespace Tally

theorem Grows.refl (a : Tally) : a.Grows a 0 := ⟨rfl, rfl⟩

theorem Grows.trans {a b c : Tally} {m n : Nat} (h : a.Grows b m) (h' : b.Grows c n) :
    a.Grows c (m + n) := by
  obtain ⟨total, paired⟩ := h
  obtain ⟨total', paired'⟩ := h'
  constructor <;> omega

theorem grows_add (a : Tally) {added : Tally}
    (one : added.rejected + added.failed + added.standard = 1)
    (legacy : added.legacy = added.standard) : a.Grows (a + added) 1 := by
  constructor
  · simp only [rejected_add, failed_add, standard_add]
    omega
  · simp only [standard_add, legacy_add, legacy]
    omega

end Tally

namespace Turn

/-- A turn about a topic is one outcome of it, and leaves the tallies of the others. -/
theorem Adds.grows {turn : Turn σ} {about topic : Topic} {added : Tally}
    (h : turn.Adds about added) (asked : turn.call.request.topic? = some about)
    (one : added.rejected + added.failed + added.standard = 1)
    (legacy : topic = about → added.legacy = added.standard) :
    (turn.before.counters.tally topic).Grows (turn.after.counters.tally topic)
      (if turn.call.request.topic? = some topic then 1 else 0) := by
  rw [h topic, asked]
  by_cases same : topic = about
  · rw [if_pos same, same, if_pos rfl]
    exact Tally.grows_add _ one (legacy same)
  · rw [if_neg same, Tally.add_zero, if_neg fun found => same (Option.some.inj found).symm]
    exact .refl _

/-- What a turn does to the tally of a topic that nobody emits standardized records of by
themselves. -/
theorem IsAccounted.grows {turn : Turn σ} {made : List Attempt} (h : turn.IsAccounted made)
    {topic : Topic}
    (paired : turn.call.request.isStandard = true → turn.call.request.topic? ≠ some topic) :
    (turn.before.counters.tally topic).Grows (turn.after.counters.tally topic)
      (if turn.call.request.topic? = some topic then 1 else 0) := by
  cases h with
  | unasked topicless silent replied kept =>
    rw [kept, topicless, if_neg (by simp)]
    exact .refl _
  | rejected about silent replied adds => exact adds.grows about rfl fun _ => rfl
  | failed about refused replied adds => exact adds.grows about rfl fun _ => rfl
  | published about accepted replied adds =>
    apply adds.grows about rfl
    intro same
    -- of this topic only operations are asked, and they publish an older record as well
    rw [← same] at about
    rw [if_neg fun standard => paired standard about]

end Turn

theorem leave_grows {t : Transport σ} {topic : Topic} {w : World σ} {cs : List Call}
    (accounted : ∀ turn ∈ turns t w cs, ∃ made, turn.IsAccounted made)
    (paired : ∀ c ∈ cs, c.request.isStandard = true → c.request.topic? ≠ some topic) :
    (w.counters.tally topic).Grows ((leave t w cs).counters.tally topic)
      (cs.countP fun c => c.request.topic? = some topic) := by
  induction cs generalizing w with
  | nil => exact .refl _
  | cons c cs ih =>
    rw [List.forall_mem_cons] at paired
    simp only [turns, List.forall_mem_cons] at accounted
    obtain ⟨⟨made, first⟩, rest⟩ := accounted
    have grown := (first.grows paired.1).trans (ih rest paired.2)
    rw [leave_cons, List.countP_cons, Nat.add_comm]
    simp only [decide_eq_true_eq]
    exact grown

section Session

variable (t : Transport σ) {w : World σ} {cs : List Call}

theorem turns_isAccounted (formed : w.counters.IsFormed)
    (metered : ∀ c ∈ cs, c.emitter.metered = true) (listed : ∀ c ∈ cs, c.request.IsListed)
    (answers : ∀ turn ∈ turns t w cs, turn.before.surroundings.Answers) :
    ∀ turn ∈ turns t w cs, turn.IsAccounted (turn.made t) := by
  intro turn taken
  have answers := answers turn taken
  obtain ⟨c, called, w', formed', rfl⟩ :=
    exists_of_mem_turns (P := fun w => w.counters.IsFormed) (fun c _ => c.turn_isFormed t) formed
      taken
  exact c.turn_isAccounted t (metered c called) (listed c called) answers formed'

/-- Every turn of a session on fresh counters is accounted for. Of a topic that nobody emits
standardized records of by themselves, the outcomes counted are as many as the calls about it, and
every standardized record that was published has its older one. -/
theorem session_accounted (fresh : w.counters = [])
    (metered : ∀ c ∈ cs, c.emitter.metered = true) (listed : ∀ c ∈ cs, c.request.IsListed)
    (answers : ∀ turn ∈ turns t w cs, turn.before.surroundings.Answers) :
    (∀ turn ∈ turns t w cs, turn.IsAccounted (turn.made t)) ∧
    ∀ topic, (∀ c ∈ cs, c.request.isStandard = true → c.request.topic? ≠ some topic) →
      let counted := (leave t w cs).counters.tally topic
      counted.rejected + counted.failed + counted.standard
        = cs.countP (fun c => c.request.topic? = some topic) ∧
      counted.legacy = counted.standard := by
  have formed : w.counters.IsFormed := by
    rw [fresh]
    simp [Counters.IsFormed]
  have accounted := turns_isAccounted t formed metered listed answers
  refine ⟨accounted, fun topic paired => ?_⟩
  have grown := leave_grows (fun turn taken => ⟨_, accounted turn taken⟩) paired
  rw [fresh, Counters.tally_nil] at grown
  exact ⟨grown.total.trans (Nat.zero_add _), grown.paired.trans (Nat.zero_add _)⟩

end Session

/-- A request of a metered emitter whose surroundings are set anew. -/
def Call.onLedger (q : Request) : Call :=
  ⟨⟨⟨"stellara_event"⟩, true⟩, fun _ => .ledger, q⟩

theorem Call.metered_onLedger (qs : List Request) :
    ∀ c ∈ qs.map onLedger, c.emitter.metered = true := by
  intro c hc
  obtain ⟨q, _, rfl⟩ := List.mem_map.mp hc
  rfl

/-- A transport that refuses its second record, with a fault of encoding. -/
def Transport.stumbling : Transport Nat := fun n _ =>
  ⟨if n = 1 then .error (.encoding .emptySymbol) else .ok (), n + 1, []⟩

/-- Three transfers (of one token, of a text and of two tokens), and two standardized records by
themselves, of a known topic and of an unknown one. -/
def Request.mixed : List Request :=
  let alice : Datum := .address ⟨"alice"⟩
  let transfer (amount : Datum) : Request :=
    .operation .transfer [alice, .address ⟨"bob"⟩, amount, .address ⟨"token"⟩] []
  let alert (topic : Datum) : Request := .standard [topic, alice, .list [], .map []] []
  [transfer (.number 1), transfer (.plain "1"), transfer (.number 2),
    alert (.topic .emergencyMode), alert (.plain "alert")]

theorem Request.isListed_alert (topic actor : Datum) :
    (standard [topic, actor, .list [], .map []] []).IsListed := by
  intro args bound named
  have fit : Arguments.bind Emitter.standardParameters [topic, actor, .list [], .map []] []
      = .ok [("event_type", topic), ("actor_identity", actor), ("data", .list []),
        ("metadata", .map [])] := by rfl
  obtain rfl := Except.ok.inj (fit.symm.trans bound)
  exact ⟨⟨[], rfl⟩, [], rfl⟩

theorem session_accounted_mixed :
    let cs := Request.mixed.map Call.onLedger
    let w : World Nat := ⟨.ledger, 0, []⟩
    (∀ c ∈ cs, c.emitter.metered = true) ∧ (∀ c ∈ cs, c.request.IsListed) ∧
    (∀ turn ∈ turns .stumbling w cs, turn.before.surroundings.Answers) ∧
    (∀ turn ∈ turns .stumbling w cs, turn.IsAccounted (turn.made .stumbling)) ∧
    (leave .stumbling w cs).counters.tally .transfer = ⟨1, 1, 1, 1⟩ ∧
    1 + 1 + 1 = cs.countP (fun c => c.request.topic? = some .transfer) := by
  intro cs w
  have metered := Call.metered_onLedger Request.mixed
  have listed : ∀ c ∈ cs, c.request.IsListed := by
    intro c hc
    obtain ⟨q, hq, rfl⟩ := List.mem_map.mp hc
    simp only [Request.mixed, List.mem_cons, List.not_mem_nil, or_false] at hq
    rcases hq with rfl | rfl | rfl | rfl | rfl
    · trivial
    · trivial
    · trivial
    · exact Request.isListed_alert _ _
    · exact Request.isListed_alert _ _
  have answers : ∀ turn ∈ turns .stumbling w cs, turn.before.surroundings.Answers := by
    intro turn taken
    obtain ⟨c, hc, w', _, rfl⟩ :=
      exists_of_mem_turns (P := fun _ => True) (fun _ _ _ => trivial) trivial taken
    obtain ⟨q, _, rfl⟩ := List.mem_map.mp hc
    exact fun n => ⟨_, rfl⟩
  have paired : ∀ c ∈ cs, c.request.isStandard = true → c.request.topic? ≠ some .transfer := by
    decide +kernel
  obtain ⟨accounted, totals⟩ := session_accounted .stumbling rfl metered listed answers
  have counted : (leave .stumbling w cs).counters.tally .transfer = ⟨1, 1, 1, 1⟩ := by
    decide +kernel
  have total := (totals .transfer paired).1
  rw [counted] at total
  exact ⟨metered, listed, answers, accounted, counted, total⟩

end EventEnvelope
