import EventEnvelope.Proofs.DecodeFailure

/-! What a consumer's own schema version is for. A document's version is held against it before any
field is read, and all that comes of it is a warning. Main statement: decoding gives the same answer
whatever version the consumer knows; a version beyond it is reported once, and nothing else about
the report depends on it. -/

namespace EventEnvelope

namespace Version

/-- Whether a version is a number and not at most the current one. A number that is none counts as
beyond every version. -/
def isBeyond (current : Int) : Datum → Bool
  | .flag b => current < if b then 1 else 0
  | .number n => current < n
  | .real x =>
    x.isNan || if x.isFinite then current * Binary64.unitsPerOne < x.units else !x.isNegative
  | _ => false

end Version

namespace Envelope

/-- What is reported about the version of a document, if bytes hold one. -/
def versionWarnings (current : Int) : Option Document → Log
  | none => []
  | some doc =>
    if Version.isBeyond current (comparedVersion doc) then
      [Version.warning current (comparedVersion doc) (shown doc topicField)]
    else []

/-- A decoder that makes nothing of the version its consumer knows but a warning: its answer and the
rest of its report are the same for every version. -/
def OnlyWarns (decoder : Int → Reported Envelope) (doc? : Option Document) : Prop :=
  ∃ (reply : Except Failure Envelope) (others : Log), (∀ r ∈ others, r.source ≠ .version) ∧
    ∀ (current : Int) (log : Log),
      decoder current log = (reply, log ++ versionWarnings current doc? ++ others)

theorem OnlyWarns.congr {f g : Int → Reported Envelope} {doc? : Option Document}
    (h : OnlyWarns f doc?) (same : ∀ current log, g current log = f current log) :
    OnlyWarns g doc? := by
  obtain ⟨reply, others, foreign, run⟩ := h
  exact ⟨reply, others, foreign, fun current log => (same current log).trans (run current log)⟩

/-- A map in binary form whose version is one and a half. -/
def fractional : Bytes :=
  [0x81, 0xa7, 0x76, 0x65, 0x72, 0x73, 0x69, 0x6f, 0x6e, 0xcb, 0x3f, 0xf8, 0, 0, 0, 0, 0, 0]

end Envelope

end EventEnvelope
