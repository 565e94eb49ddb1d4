import EventEnvelope.Proofs.Session

/-! Observing a transport changes nothing but the record of attempts. Two transports of which one is
the image of the other drive an emitter alike, so every turn of an observed session is the turn of
the session itself once the record is left out. -/

namespace EventEnvelope

variable {σ τ α β : Type}

/-- One transport does what the other does, seen through `f`. -/
def Transport.Mirrors (f : τ → σ) (t : Transport σ) (u : Transport τ) : Prop :=
  ∀ s p, t (f s) p = ⟨(u s p).outcome, f (u s p).state, (u s p).log⟩

theorem Transport.observed_mirrors (t : Transport σ) : Mirrors Prod.fst t t.observed :=
  fun _ _ => rfl

namespace Emit

/-- The same answer, and worlds that agree seen through `f`. -/
def Mirrors (f : τ → σ) (x : Emit σ α) (y : Emit τ α) : Prop :=
  ∀ w, x (w.mapTransport f) = ((y w).1, (y w).2.mapTransport f)

variable {f : τ → σ} {t : Transport σ} {u : Transport τ}

theorem Mirrors.pure (a : α) : Mirrors f (Pure.pure a) (Pure.pure a) := fun _ => rfl

theorem Mirrors.bind {x : Emit σ α} {y : Emit τ α} {k : α → Emit σ β} {l : α → Emit τ β}
    (first : Mirrors f x y) (rest : ∀ a, Mirrors f (k a) (l a)) :
    Mirrors f (x >>= k) (y >>= l) := by
  intro w
  rw [bind_apply, bind_apply, first w]
  rcases y w with ⟨r, w'⟩
  cases r with
  | error e => rfl
  | ok a => exact rest a w'

theorem mirrors_build (x : Build α) : Mirrors f (build x) (build x) := fun _ => rfl

theorem mirrors_report (level : Level) (source : LogSource) (text : CodeText) :
    Mirrors f (report level source text) (report level source text) := fun _ => rfl

theorem mirrors_publish (h : Transport.Mirrors f t u) (p : Publication) :
    Mirrors f (publish t p) (publish u p) := by
  intro w
  simp only [publish, World.mapTransport, h w.transport p, reportAll]

theorem Mirrors.onFailure {x : Emit σ α} {y : Emit τ α} {act : Failure → Emit σ Failure}
    {act' : Failure → Emit τ Failure} (tried : Mirrors f x y)
    (acted : ∀ e, Mirrors f (act e) (act' e)) :
    Mirrors f (onFailure x act) (onFailure y act') := by
  intro w
  unfold Emit.onFailure
  rw [tried w]
  rcases y w with ⟨r, w'⟩
  cases r with
  | ok a => rfl
  | error e =>
    dsimp only
    rw [acted e w']
    rcases act' e w' with ⟨r', w''⟩
    cases r' <;> rfl

end Emit

namespace Emitter

variable {f : τ → σ} {t : Transport σ} {u : Transport τ}

theorem mirrors_count (em : Emitter) (s : Series) :
    Emit.Mirrors f (em.count s) (em.count s) := by
  intro w
  unfold count
  split <;> rfl

theorem mirrors_rejected (em : Emitter) (topic : Topic) (text : String) :
    Emit.Mirrors f (em.rejected topic text) (em.rejected topic text) :=
  .bind (Emit.mirrors_report _ _ _) fun _ => em.mirrors_count _

theorem mirrors_encoding (em : Emitter) (topic : Topic) (x : Build α) :
    Emit.Mirrors f (em.encoding topic x) (em.encoding topic x) := by
  refine .onFailure (Emit.mirrors_build x) fun e => ?_
  cases e with
  | encoding fault => exact .bind (em.mirrors_rejected _ _) fun _ => .pure _
  | invalid faults => exact .bind (em.mirrors_rejected _ _) fun _ => .pure _
  | _ => exact .pure _

theorem mirrors_emitted (em : Emitter) (e : Emission) :
    Emit.Mirrors f (em.emitted e) (em.emitted e) :=
  .bind (Emit.mirrors_report _ _ _) fun _ =>
    .bind (em.mirrors_count _) fun _ => em.mirrors_count _

theorem mirrors_publishFailed (em : Emitter) (e : Envelope) :
    Emit.Mirrors f (em.publishFailed e) (em.publishFailed e) :=
  .bind (Emit.mirrors_report _ _ _) fun _ => em.mirrors_count _

theorem mirrors_deliver (em : Emitter) (h : Transport.Mirrors f t u) (e : Emission) :
    Emit.Mirrors f (em.deliver t e) (em.deliver u e) := by
  have both : Emit.Mirrors f (em.publishBoth t e) (em.publishBoth u e) :=
    .bind (Emit.mirrors_publish h _) fun _ => Emit.mirrors_publish h _
  refine .bind (.onFailure both fun _ => ?_) fun _ => ?_
  · exact .bind (em.mirrors_publishFailed _) fun _ => .pure _
  · exact .bind (em.mirrors_emitted e) fun _ => .pure e

theorem mirrors_perform (em : Emitter) (h : Transport.Mirrors f t u) (op : Operation)
    (args : CallerArguments) : Emit.Mirrors f (em.perform t op args) (em.perform u op args) :=
  .bind (em.mirrors_encoding _ _) fun _ => em.mirrors_deliver h _

theorem mirrors_emitStandard (em : Emitter) (h : Transport.Mirrors f t u)
    (topic actor data metadata : Datum) :
    Emit.Mirrors f (em.emitStandard t topic actor data metadata)
      (em.emitStandard u topic actor data metadata) := by
  refine .bind (Emit.mirrors_build _) fun found => .bind (em.mirrors_encoding found _) fun e => ?_
  refine .bind (.onFailure (Emit.mirrors_publish h _) fun _ => ?_) fun _ => ?_
  · exact .bind (em.mirrors_count _) fun _ => .pure _
  · exact .bind (em.mirrors_count _) fun _ => .pure e

end Emitter

variable {f : τ → σ} {t : Transport σ} {u : Transport τ}

theorem Request.mirrors_perform (q : Request) (em : Emitter) (h : Transport.Mirrors f t u) :
    Emit.Mirrors f (q.perform em t) (q.perform em u) := by
  cases q with
  | operation op positional named =>
    exact .bind (Emit.mirrors_build _) fun _ => .bind (em.mirrors_perform h op _) fun _ => .pure _
  | standard positional named =>
    exact .bind (Emit.mirrors_build _) fun _ =>
      .bind (em.mirrors_emitStandard h _ _ _ _) fun _ => .pure _

theorem Call.turn_mapTransport (h : Transport.Mirrors f t u) (c : Call) (w : World τ) :
    c.turn t (w.mapTransport f) = (c.turn u w).mapTransport f := by
  have run := c.request.mirrors_perform c.emitter h (w.enter c.host)
  change c.request.perform c.emitter t ((w.mapTransport f).enter c.host) = _ at run
  simp only [Call.turn, run, Turn.mapTransport]
  rfl

/-- Whole sessions agree as well, turn by turn. -/
theorem turns_mapTransport (h : Transport.Mirrors f t u) (w : World τ) (cs : List Call) :
    turns t (w.mapTransport f) cs = (turns u w cs).map (Turn.mapTransport f) := by
  induction cs generalizing w with
  | nil => rfl
  | cons c cs ih =>
    have one := c.turn_mapTransport h w
    simp only [turns, List.map_cons, one]
    exact congrArg _ (ih (c.turn u w).after)

/-- The turns of an observed session are the session's own but for the record of attempts. -/
theorem turns_of_observed (t : Transport σ) (w : World σ) (cs : List Call) :
    turns t w cs = (turns t.observed w.observed cs).map (Turn.mapTransport Prod.fst) :=
  turns_mapTransport t.observed_mirrors w.observed cs

end EventEnvelope
