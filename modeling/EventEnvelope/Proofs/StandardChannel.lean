import EventEnvelope.Proofs.LogCounts
import EventEnvelope.Proofs.PublishedRecords
import Mathlib.Algebra.Group.Int.Defs

/-! What stands on the standardized channel. The envelope would take data of any kind, so its shape
rests on the builder alone. Main statement: after any history, whatever the calls were given and
whatever the host told, each record that is not one of the older format has the shape that consumers
rely on. -/

namespace EventEnvelope

variable {σ : Type}

/-- An integer fits a signed or an unsigned word of 128 bits. -/
def Value.IsBounded : Value → Prop
  | number n => -2 ^ 127 ≤ n ∧ n < 2 ^ 128
  | _ => True

theorem Value.Admitted.isBounded {limit? : Option Nat} {offered : Text → Prop} {v : Value}
    (h : v.Admitted limit? offered) : v.IsBounded := by
  cases h with
  | number range => simpa [Value.inRange, Value.IsBounded] using range
  | _ => trivial

/-- The records that a turn may put on the standardized channel: below the emitter's root and a
topic, the host's identity, the actor, bounded values, distinct keys with at least one value each, a
time and the version in force. An operation always has an actor. -/
inductive Turn.Standardizes (turn : Turn σ) : Publication → Prop
  | mk {topic : Topic} {emitter : Address} {actor : Option Address} {data : List Value}
      {metadata : Metadata} {time : Nat}
      (identified : Admission.address turn.before.surroundings.identity = .ok emitter)
      (acted : turn.call.request.isStandard = false → actor ≠ none)
      (data_bounded : ∀ v ∈ data, v.IsBounded)
      (metadata_bounded : ∀ e ∈ metadata, e.2 ≠ [] ∧ ∀ v ∈ e.2, v.IsBounded)
      (distinct : (metadata.map Prod.fst).Nodup) :
      Standardizes turn ⟨[.symbol turn.call.emitter.root, .topic topic],
        .tuple [.address emitter, actor.elim .null .address, .tuple (data.map Value.toDatum),
          .map (metadata.map fun e => (.text (.key e.1), .tuple (e.2.map Value.toDatum))),
          .number time, .number turn.before.surroundings.version]⟩

theorem Turn.standardizes (turn : Turn σ) {r : Records} (built : turn.built = .ok r) :
    turn.Standardizes (r.standard.publication turn.call.emitter.root) := by
  obtain ⟨d, emitter, stamps⟩ := Request.stamps_of_build (Prod.ext built rfl)
  have record : r.standard.publication turn.call.emitter.root
      = ⟨[.symbol turn.call.emitter.root, .topic d.topic],
        .tuple [.address emitter, d.actor.elim .null .address, .tuple (d.data.map Value.toDatum),
          .map (d.metadata.map fun e => (.text (.key e.1), .tuple (e.2.map Value.toDatum))),
          .number r.standard.timestamp, .number turn.before.surroundings.version]⟩ := by
    have actor : d.actorDatum = d.actor.elim .null .address := by
      unfold Draft.actorDatum
      cases d.actor <;> rfl
    rw [← stamps.version, ← actor, stamps.standard]
    simp [Envelope.publication, Envelope.payload, Draft.stamped, Envelope.metadataMap,
      Metadata.toEntries]
  rw [record]
  refine .mk stamps.identified stamps.acted ?_ ?_ stamps.admitted.distinct
  · intro v hv
    exact (stamps.admitted.data v hv).isBounded
  · intro e he
    obtain ⟨nonempty, values⟩ := stamps.admitted.metadata e he
    exact ⟨nonempty, fun v hv => (values v hv).isBounded⟩

/-- Every record that a session tries to publish is one of the two that some turn built. The
standardized one has the shape of its channel, as the turn makes it; the other starts with a topic,
so that a consumer can tell them apart. -/
theorem attempts_standardized (t : Transport σ) (w : World σ) (cs : List Call) :
    ∀ a ∈ attempts t w cs, ∃ turn ∈ turns t w cs, ∃ r, turn.built = .ok r ∧
      (a.record = r.standard.publication turn.call.emitter.root ∧ turn.Standardizes a.record ∨
        r.legacy = some a.record ∧ ∃ topic keys, a.record.channel = .topic topic :: keys) := by
  intro a ha
  obtain ⟨turn, listed, r, built, published⟩ := mem_attempts ha
  refine ⟨turn, listed, r, built, ?_⟩
  rcases List.mem_cons.mp published with standard | older
  · left
    rw [standard]
    exact ⟨rfl, turn.standardizes built⟩
  · right
    have older := Option.mem_toList.mp older
    exact ⟨older, Request.legacy_channel (Prod.ext built rfl) older⟩

theorem attempts_standardized_transfer :
    let w : World (List Publication) := ⟨.ledger, [], []⟩
    let cs := [Call.onLedger (.operation .transfer
      [.address ⟨"alice"⟩, .plain "bob", .number 1, .address ⟨"token"⟩] [])]
    ∃ a ∈ attempts .keeping w cs,
      a.record.channel = [.symbol ⟨"stellara_event"⟩, .topic .transfer] ∧
      ∃ turn ∈ turns .keeping w cs, turn.Standardizes a.record := by
  intro w cs
  obtain ⟨a, rest, first, channel⟩ : ∃ a rest, attempts .keeping w cs = a :: rest ∧
      a.record.channel = [.symbol ⟨"stellara_event"⟩, .topic .transfer] := ⟨_, _, rfl, rfl⟩
  have listed : a ∈ attempts .keeping w cs := first ▸ List.mem_cons_self
  refine ⟨a, listed, channel, ?_⟩
  obtain ⟨turn, among, r, built, ⟨_, standardized⟩ | ⟨_, topic, keys, older⟩⟩ :=
    attempts_standardized .keeping w cs a listed
  · exact ⟨turn, among, standardized⟩
  · rw [channel] at older
    cases older

end EventEnvelope
