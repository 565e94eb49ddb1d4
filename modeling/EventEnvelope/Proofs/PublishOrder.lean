import EventEnvelope.Proofs.Observation
import EventEnvelope.Proofs.Performing
import Mathlib.Data.List.Forall2

/-! What a session publishes. Every call contributes one block of attempts: nothing when its records
could not be built, else the standardized record and, once that was accepted, the older one. Main
statement: the attempts of a session are the blocks of its calls, one after another. -/

namespace EventEnvelope

variable {σ τ α β : Type}

/-- How records are served from a transport in state `s`: by no attempt when they were not built,
else by handing over their publications. -/
inductive Served (t : Transport σ) (s : σ) (publications : α → List Publication) :
    Except Failure α → Except Failure α → σ → Prop where
  | unbuilt (e e' : Failure) : Served t s publications (.error e) (.error e') s
  | handed {a : α} {reply : Except Failure α} {s' : σ}
      (replied : reply = (t.handOver s (publications a)).1.map fun _ => a)
      (left : s' = (t.handOver s (publications a)).2) : Served t s publications (.ok a) reply s'

/-- Every request is served from the transport by what building its records came to. -/
theorem Request.perform_served (q : Request) (em : Emitter) (t : Transport σ) (w : World σ) :
    Served t w.transport (fun r => r.publications em.root) (q.build w.surroundings).1
      (q.perform em t w).1 (q.perform em t w).2.transport := by
  cases q.performed em t w with
  | unasked _ built ends =>
    rw [built, ends.reply, ends.transport]
    exact .unbuilt _ _
  | asked _ emits =>
    cases emits with
    | rejected built ends =>
      rw [built, ends.reply, ends.transport]
      exact .unbuilt _ _
    | refused built handed ends =>
      rw [id_eq] at handed
      rw [built, ends.reply, ends.transport]
      exact .handed (by rw [handed]; rfl) (by rw [handed])
    | published built handed ends =>
      rw [id_eq] at handed
      rw [built, ends.reply, ends.transport]
      exact .handed (by rw [handed]; rfl) (by rw [handed])

theorem Turn.served (c : Call) (t : Transport σ) (w : World σ) :
    Served t w.transport (fun r => r.publications c.emitter.root) (c.turn t w).built
      (c.turn t w).reply (c.turn t w).after.transport :=
  c.request.perform_served c.emitter t (w.enter c.host)

/-- The attempts of one call below a root topic, given what building came to, and its answer. -/
inductive Block (root : Symbol) :
    Except Failure Records → List Attempt → Except Failure Records → Prop where
  | unbuilt (e e' : Failure) : Block root (.error e) [] (.error e')
  | refused (r : Records) (e : Failure) :
      Block root (.ok r) [⟨r.standard.publication root, .error e⟩] (.error e)
  | alone (e : Envelope) :
      Block root (.ok ⟨e, none⟩) [⟨e.publication root, .ok ()⟩] (.ok ⟨e, none⟩)
  | refusedLegacy (e : Envelope) (p : Publication) (f : Failure) :
      Block root (.ok ⟨e, some p⟩) [⟨e.publication root, .ok ()⟩, ⟨p, .error f⟩] (.error f)
  | both (e : Envelope) (p : Publication) :
      Block root (.ok ⟨e, some p⟩) [⟨e.publication root, .ok ()⟩, ⟨p, .ok ()⟩] (.ok ⟨e, some p⟩)

namespace Block

variable {root : Symbol} {built reply : Except Failure Records} {block : List Attempt}

/-- A call returns just when its records were built and every attempt was accepted, and then it
returns those records. -/
theorem returns_iff (h : Block root built block reply) (r : Records) :
    reply = .ok r ↔ built = .ok r ∧ ∀ a ∈ block, a.outcome = .ok () := by
  cases h <;> simp

theorem of_served {t : Transport σ} {s s' : σ × List Attempt}
    (h : Served t.observed s (fun r => r.publications root) built reply s') :
    ∃ block, s'.2 = s.2 ++ block ∧ Block root built block reply := by
  cases h with
  | unbuilt e e' => exact ⟨[], by simp, .unbuilt e e'⟩
  | @handed r reply s' replied left =>
    obtain ⟨e, legacy⟩ := r
    subst replied left
    simp only [Records.publications, Transport.handOver, Transport.observed]
    cases first : (t s.1 (e.publication root)).outcome with
    | error f => exact ⟨_, rfl, .refused ⟨e, legacy⟩ f⟩
    | ok _ =>
      cases legacy with
      | none => exact ⟨_, rfl, .alone e⟩
      | some p =>
        simp only [Option.toList, Transport.handOver, Transport.observed]
        cases second : (t (t s.1 (e.publication root)).state p).outcome with
        | error f => exact ⟨_, List.append_assoc _ _ _, .refusedLegacy e p f⟩
        | ok _ => exact ⟨_, List.append_assoc _ _ _, .both e p⟩

end Block

/-- A request for a standardized record by itself has no older record, and an operation has one. -/
def Request.isStandard : Request → Bool
  | standard _ _ => true
  | operation _ _ _ => false

theorem Request.legacy_isNone {q : Request} {s s' : Surroundings} {r : Records}
    (h : q.build s = (.ok r, s')) : r.legacy.isNone = q.isStandard := by
  cases builds_of_build h <;> rfl

/-- How a turn accounts for a block of attempts: it is the turn's block, the older record takes part
just when an operation was asked for, and the caller gets the records just when all of it went
well. -/
structure Turn.Accounts (turn : Turn σ) (made : List Attempt) : Prop where
  shape : Block turn.call.emitter.root turn.built made turn.reply
  legacy : ∀ r, turn.built = .ok r → r.legacy.isNone = turn.call.request.isStandard
  returns : ∀ r, turn.reply = .ok r ↔
    turn.built = .ok r ∧ ∀ a ∈ made, a.outcome = .ok ()

theorem Turn.accounts_of_block (turn : Turn σ) {block : List Attempt}
    (h : Block turn.call.emitter.root turn.built block turn.reply) : turn.Accounts block where
  shape := h
  legacy _ built := Request.legacy_isNone (Prod.ext built rfl)
  returns := h.returns_iff

theorem leave_cons (t : Transport σ) (w : World σ) (c : Call) (cs : List Call) :
    leave t w (c :: cs) = leave t (c.turn t w).after cs := rfl

/-- A session that starts with attempts on record adds the blocks of its turns to them. -/
theorem observed_eq_append_flatten (t : Transport σ) (w : World (σ × List Attempt))
    (cs : List Call) :
    ∃ blocks, (leave t.observed w cs).transport.2 = w.transport.2 ++ blocks.flatten ∧
      List.Forall₂ Turn.Accounts (turns t.observed w cs) blocks := by
  induction cs generalizing w with
  | nil => exact ⟨[], by simp [leave], .nil⟩
  | cons c cs ih =>
    obtain ⟨block, added, accounts⟩ := Block.of_served (Turn.served c t.observed w)
    obtain ⟨blocks, left, rest⟩ := ih (c.turn t.observed w).after
    refine ⟨block :: blocks, ?_, .cons ((c.turn t.observed w).accounts_of_block accounts) rest⟩
    rw [leave_cons, left, added, List.append_assoc, List.flatten_cons]

end EventEnvelope
