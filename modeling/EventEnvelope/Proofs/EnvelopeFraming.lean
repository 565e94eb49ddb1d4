import EventEnvelope.Proofs.BinaryEnvelope
import EventEnvelope.Proofs.DecodeFailure
import EventEnvelope.Proofs.Wire.Framing

/-! Damaged envelopes. Main statement: bytes that an envelope was written to are refused once some
are missing at the end or any are added, whatever the envelope and wherever the cut. -/

namespace EventEnvelope.Envelope

/-- A consumer raises the failure, a fault of value, and reports nothing. -/
def Refuses (current : Int) (bs : Bytes) (failure : Failure) : Prop :=
  (decode current bs).outcome = (.error failure, []) ∧ failure.isValueFault = true

/-- How a message that lacks its end is refused. An empty one is told apart. -/
def cutFailure (front : Bytes) : Failure :=
  if front = [] then .emptyData else .undecodableEvent .malformed

theorem refuses_of_decode {bs : Bytes} {b : UInt8} {fault : DecodeFault} (current : Int)
    (first : b ≠ jsonMark) (h : Wire.decode (b :: bs) = .error fault) :
    Refuses current (b :: bs) (.undecodableEvent fault) := by
  constructor
  · simp only [Reported.outcome, decode, if_neg first, h]
    rfl
  · rfl

theorem refuses_front {front rest : Bytes} {doc : Document}
    (held : Wire.decode (front ++ rest) = .ok (.map doc)) (cut : rest ≠ []) (current : Int) :
    Refuses current front (cutFailure front) := by
  cases front with
  | nil => exact ⟨rfl, rfl⟩
  | cons b front =>
    -- the first byte is that of the whole message, so what is left is no JSON either
    obtain ⟨b', r, same, first⟩ := Wire.mark_of_decode_map held
    cases same
    rw [cutFailure, if_neg (List.cons_ne_nil b front)]
    exact refuses_of_decode current first (Wire.decode_front held cut)

theorem refuses_extended {bs more : Bytes} {doc : Document}
    (held : Wire.decode bs = .ok (.map doc)) (added : more ≠ []) (current : Int) :
    Refuses current (bs ++ more) (.undecodableEvent .trailingBytes) := by
  obtain ⟨b, r, rfl, first⟩ := Wire.mark_of_decode_map held
  exact refuses_of_decode current first (Wire.decode_extended held added)

/-- What the builder returned and the writer wrote is no envelope any more once the bytes end early
or go on. -/
theorem refuses_damaged {e : Envelope} {topic actor data metadata timestamp : Datum}
    {s s' : Surroundings} {bs : Bytes}
    (built : Build.envelope topic actor data metadata timestamp s = (.ok e, s'))
    (written : e.encode = .ok bs) (current : Int) :
    (∀ front rest, bs = front ++ rest → rest ≠ [] →
        Refuses current front (cutFailure front)) ∧
      ∀ more, more ≠ [] → Refuses current (bs ++ more) (.undecodableEvent .trailingBytes) := by
  have typed := Build.envelope_isTyped built
  have held := (Wire.encode_portable typed.isPortable).of_ok written
  rw [typed.received] at held
  constructor
  · intro front rest parts cut
    rw [parts] at held
    exact refuses_front held cut current
  · intro more added
    exact refuses_extended held added current

end EventEnvelope.Envelope
