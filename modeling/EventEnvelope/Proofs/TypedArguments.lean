import EventEnvelope.Proofs.EnvelopeAdmission

/-! Plain texts and typed ones. An identity may be handed over as plain text or as an address, and
free text as plain text or as a symbol. Main statement: where a call is accepted, a call with any of
its plain texts typed beforehand comes to the same records and has them published in the same way;
so it is with the actor, the data and the metadata of an envelope. -/

namespace EventEnvelope

variable {α β : Type}

namespace Datum

end Datum

namespace Build

/-- Where the one step returns, the other returns the same, and a builder is told the same after
it. -/
def Covers (x y : Build α) : Prop :=
  ∀ s s' : Surroundings, s.Alike s' → ∀ a, (x s).1 = .ok a →
    (y s').1 = .ok a ∧ (x s).2.Alike (y s').2

theorem Repeats.covers {x : Build α} (h : x.Repeats) : x.Covers x := by
  intro s s' alike a returned
  exact ⟨(h.answer s s' alike).trans returned, h.alike s s' alike⟩

theorem Asks.covers {x : Build α} (h : x.Asks) : x.Covers x := h.repeats.covers

theorem Covers.bind {x y : Build α} {f g : α → Build β} (first : x.Covers y)
    (rest : ∀ a, (f a).Covers (g a)) : Covers (x >>= f) (y >>= g) := by
  intro s s' alike b returned
  obtain ⟨a, mid, went, last⟩ := bind_eq_ok (Prod.ext returned rfl)
  obtain ⟨same, met⟩ := first s s' alike a (congrArg Prod.fst went)
  rw [bind_apply y g]
  rcases went' : y s' with ⟨r, mid'⟩
  rw [went'] at same met
  rw [went] at met
  cases same
  obtain ⟨answer, left⟩ := rest a mid mid' met b (congrArg Prod.fst last)
  rw [last] at left
  exact ⟨answer, left⟩

theorem Covers.map {x y : Build α} (h : x.Covers y) (f : α → β) :
    Covers (x >>= fun a => pure (f a)) (y >>= fun a => pure (f a)) :=
  h.bind fun a => (asks_pure (f a)).covers

section Values

variable {d d' : Datum} {ds ds' : List Datum}

end Values

section Envelope

variable {actor actor' data data' metadata metadata' : Datum}

end Envelope

end Build

namespace Layout

variable {l : Layout} {args args' : CallerArguments} {fs : List Field}

end Layout

namespace Arguments

end Arguments

namespace Operation

variable {op : Operation}

end Operation

section Delivery

variable {σ : Type} {w w' : World σ}

/-- Worlds that differ in nothing but what the surroundings have on record. -/
structure World.Alike (w w' : World σ) : Prop where
  surroundings : w.surroundings.Alike w'.surroundings
  transport : w'.transport = w.transport
  counters : w'.counters = w.counters

theorem Surroundings.Reports.alike {s s' : Surroundings} (h : s.Reports s') : s.Alike s' := by
  obtain ⟨log, rfl⟩ := h
  exact ⟨rfl, rfl, rfl, rfl, rfl⟩

theorem Emit.Ends.alike {x y : Emit σ α} {r : Except Failure α} {left : σ} {counted : List Series}
    (ends : Ends x w r w.surroundings left counted)
    (ends' : Ends y w' r w'.surroundings left counted) (h : w.Alike w') :
    (y w').1 = (x w).1 ∧ (x w).2.Alike (y w').2 := by
  refine ⟨ends'.reply.trans ends.reply.symm, ?_, ends'.transport.trans ends.transport.symm, ?_⟩
  · exact (ends.surroundings.alike.symm.trans h.surroundings).trans ends'.surroundings.alike
  · rw [ends'.counters, ends.counters, h.counters]

namespace Emitter

end Emitter

end Delivery

end EventEnvelope
