import EventEnvelope.Proofs.Session

/-! How a request is performed. It names no known topic and ends before anything is built, or the
records of its topic are built and handed over: then it is rejected, refused or published, and each
of the three has its own answer, its own publications and its own counts. -/

namespace EventEnvelope

variable {σ α β : Type}

theorem Operation.topic_of_build {op : Operation} {args : CallerArguments} {s s' : Surroundings}
    {e : Emission} (h : op.build args s = (.ok e, s')) : e.standard.topic = op.topic := by
  obtain ⟨a, _, now, _, a', settled, m, _, _, _, _, stamped, _⟩ := build_eq_ok h
  obtain ⟨_, _, _, _, _, _, _, made⟩ := Build.stamp_eq_ok stamped
  rw [made]
  rfl

theorem Build.topic_of_envelope {topic : Topic} {actor data metadata given : Datum}
    {s s' : Surroundings} {e : Envelope}
    (h : envelope (.topic topic) actor data metadata given s = (.ok e, s')) : e.topic = topic := by
  obtain ⟨found, _, named, rest⟩ := bind_eq_ok h
  cases named
  obtain ⟨d, _, drafted, stamped⟩ := bind_eq_ok rest
  obtain ⟨_, _, _, drafted⟩ := bind_eq_ok drafted
  obtain ⟨_, _, _, drafted⟩ := bind_eq_ok drafted
  obtain ⟨_, _, _, drafted⟩ := bind_eq_ok drafted
  cases drafted
  obtain ⟨_, _, _, _, _, _, _, made⟩ := stamp_eq_ok stamped
  rw [made]
  rfl

theorem Build.of_ok_bind (a : α) (f : α → Build β) : (Build.of (.ok a) >>= f) = f a := rfl

namespace Emit

theorem build_of_ok_bind (a : α) (f : α → Emit σ β) :
    (build (Build.of (.ok a)) >>= f) = f a := rfl

theorem ends_build (x : Build α) (w : World σ) :
    Ends (build x) w (x w.surroundings).1 (x w.surroundings).2 w.transport [] :=
  ⟨rfl, .refl _, rfl, rfl⟩

theorem ends_build_of {x : Build α} {w : World σ} {r : Except Failure α}
    (h : (x w.surroundings).1 = r) : Ends (build x) w r (x w.surroundings).2 w.transport [] :=
  h ▸ ends_build x w

theorem Ends.map {x : Emit σ α} {w : World σ} {r : Except Failure α} {s : Surroundings} {left : σ}
    {counted : List Series} (h : Ends x w r s left counted) (f : α → β) :
    Ends (x >>= fun a => pure (f a)) w (r.map f) s left counted := by
  obtain ⟨rfl, reports, kept, counters⟩ := h
  constructor <;> rw [bind_pure_apply]
  · exact reports
  · exact kept
  · exact counters

theorem ends_publish (t : Transport σ) (p : Publication) (w : World σ) :
    Ends (publish t p) w (t.handOver w.transport [p]).1 w.surroundings
      (t.handOver w.transport [p]).2 [] := by
  unfold Transport.handOver
  cases outcome : (t w.transport p).outcome <;> exact ⟨outcome, ⟨_, rfl⟩, rfl, rfl⟩

theorem Marks.returning {x : Emit σ Unit} {ss : List Series} (h : Marks x () ss) (a : α) :
    Marks (x >>= fun _ => pure a) a ss := by
  have ended := h.bind (f := fun _ => pure a) (marks_pure a)
  rwa [List.append_nil] at ended

section Published

variable {x failed done : Emit σ Unit} {w : World σ} {left : σ} {ss : List Series}

/-- Marks are made about a failure to publish, and the failure is passed on. -/
theorem Ends.refused {e : Failure} (h : Ends x w (.error e) w.surroundings left [])
    (marks : Marks failed () ss) (a : α) :
    Ends (do
        onFailure x fun failure => do
          failed
          return failure
        done
        return a) w (.error e) w.surroundings left ss :=
  (h.onFailure_error (marks.returning e)).bind_error

theorem Ends.accepted {act : Failure → Emit σ Failure}
    (h : Ends x w (.ok ()) w.surroundings left []) (marks : Marks done () ss) (a : α) :
    Ends (do
        onFailure x act
        done
        return a) w (.ok a) w.surroundings left ss := by
  apply h.onFailure_ok.bind
  intro w' kept
  rw [← kept]
  exact marks.returning a w'

end Published

end Emit

namespace Emitter

/-- What is counted when a record of a topic could not be built. -/
def rejections (topic : Topic) : Failure → List Series
  | .encoding _ | .invalid _ => [.encodingError topic.id]
  | _ => []

theorem rejections_of_isEncodable (topic : Topic) {e : Failure} (h : e.isEncodable = true) :
    rejections topic e = [.encodingError topic.id] := by
  cases e with
  | encoding fault => rfl
  | invalid faults => rfl
  | _ => cases h

theorem encoding_ok (em : Emitter) (topic : Topic) {x : Build α} {w : World σ} {a : α}
    (h : (x w.surroundings).1 = .ok a) :
    em.encoding topic x w = (.ok a, { w with surroundings := (x w.surroundings).2 }) := by
  unfold encoding Emit.onFailure
  rw [Emit.build_apply, h]

theorem ends_encoding_ok (em : Emitter) (topic : Topic) {x : Build α} {w : World σ} {a : α}
    (h : (x w.surroundings).1 = .ok a) :
    Emit.Ends (em.encoding topic x) w (.ok a) (x w.surroundings).2 w.transport [] :=
  (Emit.ends_build_of h).onFailure_ok

theorem ends_encoding_error (em : Emitter) (topic : Topic) {x : Build α} {w : World σ}
    {e : Failure} (h : (x w.surroundings).1 = .error e) :
    Emit.Ends (em.encoding topic x) w (.error (e.asEncoding topic)) (x w.surroundings).2
      w.transport (em.counted (rejections topic e)) := by
  have failed := Emit.ends_build_of h
  unfold encoding
  cases e with
  | encoding fault =>
    exact failed.onFailure_error ((em.marks_rejected topic fault.message).returning _)
  | invalid faults =>
    exact failed.onFailure_error ((em.marks_rejected topic Fault.notice).returning _)
  | _ => exact em.counted_nil.symm ▸ failed.onFailure_error (Emit.marks_pure _)

theorem encoding_error (em : Emitter) (topic : Topic) {x : Build α} {w : World σ} {e : Failure}
    (h : (x w.surroundings).1 = .error e) :
    ∃ w', w'.transport = w.transport ∧
      em.encoding topic x w = (.error (e.asEncoding topic), w') := by
  have ends := em.ends_encoding_error topic h
  exact ⟨_, ends.transport, Prod.ext ends.reply rfl⟩

theorem ends_publishBoth (em : Emitter) (t : Transport σ) (e : Emission) (w : World σ) :
    Emit.Ends (em.publishBoth t e) w
      (t.handOver w.transport [e.standard.publication em.root, e.legacy]).1 w.surroundings
      (t.handOver w.transport [e.standard.publication em.root, e.legacy]).2 [] := by
  have first := Emit.ends_publish t (e.standard.publication em.root) w
  unfold Transport.handOver at first ⊢
  cases outcome : (t w.transport (e.standard.publication em.root)).outcome with
  | error failure =>
    rw [outcome] at first
    exact first.bind_error
  | ok _ =>
    rw [outcome] at first
    apply first.bind
    intro w' kept
    have second := Emit.ends_publish t e.legacy w'
    rw [kept] at second
    exact second

section Deliver

variable {em : Emitter} {t : Transport σ} {e : Emission} {w : World σ} {left : σ}

/-- Both records are handed over in order, and the first refusal is the caller's answer. -/
theorem ends_deliver_refused {failure : Failure} (handed :
    t.handOver w.transport [e.standard.publication em.root, e.legacy] = (.error failure, left)) :
    Emit.Ends (em.deliver t e) w (.error failure) w.surroundings left
      (em.counted [.publishFailure e.standard.topic.id]) := by
  have both := em.ends_publishBoth t e w
  rw [handed] at both
  exact both.refused (em.marks_publishFailed e.standard) e

theorem ends_deliver_accepted (handed :
    t.handOver w.transport [e.standard.publication em.root, e.legacy] = (.ok (), left)) :
    Emit.Ends (em.deliver t e) w (.ok e) w.surroundings left
      (em.counted [.standardPublished e.standard.topic.id,
        .legacyPublished e.standard.topic.id]) := by
  have both := em.ends_publishBoth t e w
  rw [handed] at both
  exact both.accepted (em.marks_emitted e) e

end Deliver

theorem deliver_apply (em : Emitter) (t : Transport σ) (e : Emission) (w : World σ) :
    (em.deliver t e w).1
        = (t.handOver w.transport [e.standard.publication em.root, e.legacy]).1.map (fun _ => e) ∧
      (em.deliver t e w).2.transport
        = (t.handOver w.transport [e.standard.publication em.root, e.legacy]).2 := by
  rcases handed : t.handOver w.transport [e.standard.publication em.root, e.legacy] with
    ⟨outcome, left⟩
  cases outcome with
  | error failure =>
    have ends := ends_deliver_refused handed
    exact ⟨ends.reply, ends.transport⟩
  | ok _ =>
    have ends := ends_deliver_accepted handed
    exact ⟨ends.reply, ends.transport⟩

end Emitter

namespace Records

/-- What is counted once the records of a topic were published. -/
def series (r : Records) (topic : Topic) : List Series :=
  .standardPublished topic.id :: (r.legacy.map fun _ => .legacyPublished topic.id).toList

end Records

/-- How a step ends that builds the records of a topic and hands them over. -/
inductive Emitter.Emits (em : Emitter) (t : Transport σ) (topic : Topic) (records : α → Records)
    (x : Emit σ α) (y : Build α) (w : World σ) : Prop where
  | rejected {e : Failure} (built : (y w.surroundings).1 = .error e)
      (ends : Emit.Ends x w (.error (e.asEncoding topic)) (y w.surroundings).2 w.transport
        (em.counted (Emitter.rejections topic e)))
  | refused {a : α} {e : Failure} {left : σ} (built : (y w.surroundings).1 = .ok a)
      (handed : t.handOver w.transport ((records a).publications em.root) = (.error e, left))
      (ends : Emit.Ends x w (.error e) (y w.surroundings).2 left
        (em.counted [.publishFailure topic.id]))
  | published {a : α} {left : σ} (built : (y w.surroundings).1 = .ok a)
      (handed : t.handOver w.transport ((records a).publications em.root) = (.ok (), left))
      (ends : Emit.Ends x w (.ok a) (y w.surroundings).2 left
        (em.counted ((records a).series topic)))

namespace Emitter

theorem Emits.map {em : Emitter} {t : Transport σ} {topic : Topic} {f : α → Records}
    {x : Emit σ α} {y : Build α} {w : World σ} (h : em.Emits t topic f x y w) :
    em.Emits t topic id (x >>= fun a => pure (f a)) (y >>= fun a => pure (f a)) w := by
  have surroundings : ((y >>= fun a => pure (f a)) w.surroundings).2 = (y w.surroundings).2 := by
    rw [Build.bind_pure_apply]
  cases h with
  | rejected built ends =>
    refine .rejected ?_ (surroundings ▸ ends.map f)
    rw [Build.bind_pure_apply, built]
    rfl
  | refused built handed ends =>
    refine .refused ?_ handed (surroundings ▸ ends.map f)
    rw [Build.bind_pure_apply, built]
    rfl
  | published built handed ends =>
    refine .published ?_ handed (surroundings ▸ ends.map f)
    rw [Build.bind_pure_apply, built]
    rfl

theorem emits_perform (em : Emitter) (t : Transport σ) (op : Operation) (args : CallerArguments)
    (w : World σ) :
    em.Emits t op.topic Records.ofEmission (em.perform t op args) (op.build args) w := by
  cases built : (op.build args w.surroundings).1 with
  | error e => exact .rejected built (em.ends_encoding_error op.topic built).bind_error
  | ok e =>
    have named : e.standard.topic = op.topic := Operation.topic_of_build (Prod.ext built rfl)
    have encoded := em.ends_encoding_ok op.topic built
    rcases handed : t.handOver w.transport [e.standard.publication em.root, e.legacy] with
      ⟨outcome, left⟩
    cases outcome with
    | error failure =>
      refine .refused built handed (encoded.bind fun w' kept => ?_)
      rw [← kept] at handed
      exact named ▸ ends_deliver_refused handed
    | ok _ =>
      refine .published built handed (encoded.bind fun w' kept => ?_)
      rw [← kept] at handed
      exact named ▸ ends_deliver_accepted handed

theorem emits_standard (em : Emitter) (t : Transport σ) (topic : Topic)
    (actor data metadata : Datum) (w : World σ) :
    em.Emits t topic Records.ofEnvelope
      (do
        let e ← em.encoding topic (Build.envelope (.topic topic) actor data metadata .null)
        Emit.onFailure (Emit.publish t (e.publication em.root)) fun failure => do
          em.count (.publishFailure topic.id)
          return failure
        em.count (.standardPublished topic.id)
        return e)
      (Build.envelope (.topic topic) actor data metadata .null) w := by
  cases built : (Build.envelope (.topic topic) actor data metadata .null w.surroundings).1 with
  | error e => exact .rejected built (em.ends_encoding_error topic built).bind_error
  | ok e =>
    have encoded := em.ends_encoding_ok topic built
    have published (w' : World σ) := Emit.ends_publish t (e.publication em.root) w'
    rcases handed : t.handOver w.transport [e.publication em.root] with ⟨outcome, left⟩
    cases outcome with
    | error failure =>
      refine .refused built handed (encoded.bind fun w' kept => ?_)
      have refused := published w'
      rw [kept, handed] at refused
      exact refused.refused (em.marks_count (.publishFailure topic.id)) e
    | ok _ =>
      refine .published built handed (encoded.bind fun w' kept => ?_)
      have accepted := published w'
      rw [kept, handed] at accepted
      exact accepted.accepted (em.marks_count (.standardPublished topic.id)) e

end Emitter

def Datum.topic? (d : Datum) : Option Topic := d.proper?.bind Topic.resolve?

theorem Datum.topic?_topic (t : Topic) : Datum.topic? (.topic t) = some t := by
  change Topic.resolve? t.id = some t
  rw [Topic.resolve?, Topic.ofId?_id]

theorem Build.topic_eq (d : Datum) :
    Build.topic d = Build.of ((d.topic?.map Except.ok).getD (.error (.unknownTopic d))) := by
  unfold Build.topic
  split
  · next t =>
    change _ = Build.of (((Datum.topic? (.topic t)).map Except.ok).getD _)
    rw [Datum.topic?_topic]
    rfl
  · next t _ =>
    unfold Datum.topic?
    simp only [Datum.proper?, Datum.content?, Option.bind_some]
    cases t.content.proper?.bind Topic.resolve? <;> rfl
  · next others =>
    cases d with
    | text t => exact absurd rfl (others t)
    | _ => rfl

namespace Request

/-- The topic that a request is about; nothing for arguments that do not fit the parameters, or that
name no topic. -/
def topic? : Request → Option Topic
  | operation op positional named => (op.bind positional named).toOption.map fun _ => op.topic
  | standard positional named =>
    (Arguments.bind Emitter.standardParameters positional named).toOption.bind fun bound =>
      (Arguments.get bound "event_type").topic?

/-- A request about a topic builds the records of an operation, or a standardized record by
itself. -/
inductive About (topic : Topic) : Request → Prop
  | operation {op : Operation} {positional : List Datum} {named : List (String × Datum)}
      {args : CallerArguments} (fits : op.bind positional named = .ok args) (own : op.topic = topic)
      (builds : (Request.operation op positional named).build
        = do return .ofEmission (← op.build args)) : About topic (.operation op positional named)
  | standard {positional : List Datum} {named : List (String × Datum)} {args : Bound}
      (fits : Arguments.bind Emitter.standardParameters positional named = .ok args)
      (own : (Arguments.get args "event_type").topic? = some topic)
      (builds : (Request.standard positional named).build = do
        return .ofEnvelope (← Build.envelope (.topic topic) (Arguments.get args "actor_identity")
          (Arguments.get args "data") (Arguments.get args "metadata") .null)) :
      About topic (.standard positional named)

theorem about_of_topic? {q : Request} {topic : Topic} (h : q.topic? = some topic) :
    q.About topic := by
  cases q with
  | operation op positional named =>
    cases fits : op.bind positional named with
    | error e => simp [topic?, fits, Except.toOption] at h
    | ok args =>
      simp only [topic?, fits, Except.toOption, Option.map_some, Option.some.injEq] at h
      refine .operation fits h ?_
      simp only [build, fits, Build.of_ok_bind]
  | standard positional named =>
    cases fits : Arguments.bind Emitter.standardParameters positional named with
    | error e => simp [topic?, fits, Except.toOption] at h
    | ok args =>
      simp only [topic?, fits, Except.toOption, Option.bind_some] at h
      refine .standard fits h ?_
      simp only [build, fits, Build.of_ok_bind, Build.standard, Build.topic_eq, h, Option.map_some,
        Option.getD_some]

theorem topic_of_build {q : Request} {topic : Topic} {s s' : Surroundings} {r : Records}
    (about : q.topic? = some topic) (h : q.build s = (.ok r, s')) : r.standard.topic = topic := by
  cases about_of_topic? about with
  | operation fits own builds =>
    rw [builds] at h
    obtain ⟨e, _, built, last⟩ := Build.bind_eq_ok h
    cases last
    exact (Operation.topic_of_build built).trans own
  | standard fits own builds =>
    rw [builds] at h
    obtain ⟨e, _, built, last⟩ := Build.bind_eq_ok h
    cases last
    exact Build.topic_of_envelope built

/-- How a request ends: before anything is built, or by building its records and handing them
over. -/
inductive Performed (q : Request) (em : Emitter) (t : Transport σ) (w : World σ) : Prop where
  | unasked {e : Failure} (topicless : q.topic? = none)
      (built : (q.build w.surroundings).1 = .error e)
      (ends : Emit.Ends (q.perform em t) w (.error e) (q.build w.surroundings).2 w.transport [])
  | asked {topic : Topic} (about : q.topic? = some topic)
      (emits : em.Emits t topic id (q.perform em t) q.build w)

theorem performed (q : Request) (em : Emitter) (t : Transport σ) (w : World σ) :
    q.Performed em t w := by
  -- arguments that fit are at hand without a step, and so is a topic that is known
  cases q with
  | operation op positional named =>
    cases bound : op.bind positional named with
    | error e =>
      refine .unasked (e := e) ?_ ?_ ?_
      all_goals simp only [topic?, build, perform, bound]
      · rfl
      · rfl
      · exact (Emit.ends_build (Build.of (.error e)) w).bind_error
    | ok args =>
      refine .asked ?_ (?_ : em.Emits t op.topic id _ _ w)
      all_goals simp only [topic?, build, perform, bound]
      · rfl
      · exact (em.emits_perform t op args w).map
  | standard positional named =>
    cases bound : Arguments.bind Emitter.standardParameters positional named with
    | error e =>
      refine .unasked (e := e) ?_ ?_ ?_
      all_goals simp only [topic?, build, perform, bound]
      · rfl
      · rfl
      · exact (Emit.ends_build (Build.of (.error e)) w).bind_error
    | ok args =>
      have named := Build.topic_eq (Arguments.get args "event_type")
      cases found : (Arguments.get args "event_type").topic? with
      | none =>
        rw [found, Option.map_none, Option.getD_none] at named
        refine .unasked (e := .unknownTopic (Arguments.get args "event_type")) ?_ ?_ ?_
        all_goals
          simp only [topic?, build, perform, bound, Build.of_ok_bind, Emit.build_of_ok_bind,
            Emitter.emitStandard, Build.standard, named]
        · exact found
        · rfl
        · exact (Emit.ends_build (Build.of (.error _)) w).bind_error.bind_error
      | some topic =>
        rw [found, Option.map_some, Option.getD_some] at named
        refine .asked ?_ (?_ : em.Emits t topic id _ _ w)
        all_goals
          simp only [topic?, build, perform, bound, Build.of_ok_bind, Emit.build_of_ok_bind,
            Emitter.emitStandard, Build.standard, named]
        · exact found
        · exact (em.emits_standard t topic _ _ _ w).map

end Request

end EventEnvelope
