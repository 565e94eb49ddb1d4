import EventEnvelope.Proofs.DecodeFailure
import EventEnvelope.Proofs.RecordIdentity

/-!
The form by which envelopes are told from other records: two elements in the channel, six in the
payload. No older record is taken for an envelope. Main statement: which of them are refused for
their form, and which are refused because their payload has no length, or because it is an address
of just six characters.
-/

namespace EventEnvelope

theorem Datum.elements?_of_length? {d : Datum} {n : Nat} (h : d.length? = some n) :
    ∃ xs, d.elements? = some xs ∧ xs.length = n := by
  cases d with
  | struct s => cases h
  | _ => exact Option.map_eq_some_iff.mp h

theorem Datum.length?_text (t : Text) : (text t).length? = some t.content.length := by
  simp [length?, elements?, characters]

theorem exists_of_length_eq_six {α : Type} {xs : List α} (h : xs.length = 6) :
    ∃ a b c d e f, xs = [a, b, c, d, e, f] := by
  match xs, h with
  | [a, b, c, d, e, f], _ => exact ⟨a, b, c, d, e, f, rfl⟩

namespace Envelope

variable {channel : List Datum} {payload : Datum} (current : Int) (log : Log)

/-- The length of the payload is read whatever the channel is. -/
theorem ofPublication_of_unmeasured (h : payload.length? = none) :
    ofPublication current channel payload log = (.error (.misuse .notMeasurable), log) := by
  unfold ofPublication
  rw [h]
  rfl

theorem ofPublication_of_misshapen {n : Nat} (measured : payload.length? = some n)
    (apart : ¬(channel.length = 2 ∧ n = 6)) :
    ofPublication current channel payload log
      = (.error (.notEnvelope channel.length n), log) := by
  obtain ⟨xs, held, rfl⟩ := Datum.elements?_of_length? measured
  have refused : ofPublication current channel payload
      = throw (.notEnvelope channel.length xs.length) := by
    unfold ofPublication
    rw [measured, held]
    dsimp only
    split
    · next six =>
      cases six
      exact absurd ⟨rfl, rfl⟩ apart
    · rfl
  rw [refused]
  rfl

/-- Where the last of six elements has no order with numbers, the fields are never looked at. -/
theorem ofPublication_of_unordered
    {root topic emitter actor data metadata timestamp version : Datum}
    (held : payload.elements? = some [emitter, actor, data, metadata, timestamp, version])
    (measured : payload.length? = some 6) (unordered : version.quantity? = none) :
    ofPublication current [root, topic] payload log = (.error (.misuse .notComparable), log) := by
  obtain ⟨_, _, _, _, _, _, last⟩ :=
    get?_documentOf topic emitter actor data metadata timestamp version
  unfold ofPublication
  rw [measured, held]
  change accept current _ log = _
  unfold accept
  rw [last, Option.getD_some, Reported.bind_apply, Version.check_of_unordered unordered]

/-- The last character of an address is no version. -/
theorem ofPublication_address (a : Address) (two : channel.length = 2) :
    ofPublication current channel (.address a) log
      = (.error (if a.text.length = 6 then .misuse .notComparable
          else .notEnvelope channel.length a.text.length), log) := by
  have measured : (Datum.address a).length? = some a.text.length := Datum.length?_text (.address a)
  split
  · next six =>
    obtain ⟨root, topic, rfl⟩ := List.length_eq_two.mp two
    have held : (Datum.address a).elements? = some (Datum.characters a.text) := rfl
    obtain ⟨c₁, c₂, c₃, c₄, c₅, c₆, spelled⟩ :=
      exists_of_length_eq_six (a.text.length_points.trans six)
    rw [Datum.characters, spelled] at held
    exact ofPublication_of_unordered current log held (six ▸ measured) rfl
  · next other => exact ofPublication_of_misshapen current log measured fun both => other both.2

end Envelope

namespace Operation

variable {op : Operation} {args : CallerArguments} {s s' : Surroundings} {e : Emission}

theorem row_short (op : Operation) :
    ∀ fs, op.layout.legacy = .row fs → fs.length + 1 < 6 := by
  intro fs row
  cases op <;> cases row <;> decide

/-- Only the change of an administrator carries a single identity, behind one key. -/
theorem single_role (op : Operation) :
    ∀ f, op.layout.legacy = .single f → f.role = .number ∨ f.role = .flag ∨
      f.role = .identity ∧ op.layout.legacyKeys.length = 1 := by
  intro f single
  cases op <;> cases single <;> decide

/-- The payload of an older record is a row, has no length, or is the new administrator. -/
theorem Makes.payload_cases {m : Metadata} {emitter : Address} {now : Datum}
    (made : op.Makes args s e m emitter now) :
    ((∃ fs, op.layout.legacy = .row fs) ∧ ∃ xs, e.legacy.payload = .tuple xs ∧ xs.length < 6) ∨
    (¬∃ fs, op.layout.legacy = .row fs) ∧ (e.legacy.payload.length? = none ∨
      ∃ a, e.legacy.payload = .address a ∧ op.layout.legacyKeys.length = 1) := by
  have payload := made.payload
  cases carried : op.layout.legacy with
  | row fs =>
    rw [carried] at payload
    refine .inl ⟨⟨fs, rfl⟩, _, (Except.ok.inj payload).symm, ?_⟩
    have bound := List.length_filterMap_le
      (Layout.rowValue (op.assignment s.symbolLimit? args)) fs
    have short := op.row_short fs carried
    rw [List.length_append, List.length_singleton]
    omega
  | struct kind =>
    rw [carried] at payload
    obtain ⟨t, _, filled⟩ := eq_ok_of_map payload
    exact .inr ⟨by simp, .inl (filled ▸ rfl)⟩
  | single f =>
    rw [carried] at payload
    have own : f ∈ op.layout.olderFields := by
      simp [Layout.olderFields, carried, LegacyPayload.fields]
    have early : f ∉ op.layout.late := by
      rcases op.late_eq with none | rfl
      · simp [none]
      · cases carried
    obtain ⟨listed, required, _⟩ := op.placed own early
    obtain ⟨v, given, value⟩ := made.value_of_required listed required
    rw [Layout.legacyPayload, value] at payload
    have payload : v.toDatum = e.legacy.payload := Except.ok.inj payload
    have role := Field.role_of_value? given
    refine .inr ⟨by simp, ?_⟩
    rcases op.single_role f carried with number | flag | ⟨identity, one⟩
    · cases v <;> cases role.trans number
      exact .inl (payload ▸ rfl)
    · cases v <;> cases role.trans flag
      exact .inl (payload ▸ rfl)
    · cases v <;> cases role.trans identity
      exact .inr ⟨_, payload.symm, one⟩

/-- Whether the older record of an operation is refused for its form: a row is, and so is an
address, unless it has just six characters. -/
def IsRefusedForForm (op : Operation) (payload : Datum) : Prop :=
  (∃ fs, op.layout.legacy = .row fs) ∨ ∃ a, payload = .address a ∧ a.text.length ≠ 6

/-- The older record of an operation is never taken for an envelope. A refusal for its form tells
both lengths; where there is none, the payload has no length, or it is an address whose characters
were taken for fields. -/
theorem build_refused (h : op.build args s = (.ok e, s')) (current : Int) :
    ∃ f, (Envelope.ofPublication current e.legacy.channel e.legacy.payload).outcome
        = (.error f, []) ∧
      (op.IsRefusedForForm e.legacy.payload ↔
        ∃ n, e.legacy.payload.length? = some n ∧ f = .notEnvelope e.legacy.channel.length n) ∧
      (¬op.IsRefusedForForm e.legacy.payload →
        f = .misuse
          (if e.legacy.payload.length? = none then .notMeasurable else .notComparable)) := by
  obtain ⟨m, emitter, now, made⟩ := build_makes h
  rcases made.payload_cases with
    ⟨row, xs, payload, short⟩ | ⟨rowless, unmeasured | ⟨a, payload, one⟩⟩
  · have measured : e.legacy.payload.length? = some xs.length := by
      rw [payload]
      rfl
    have formed : op.IsRefusedForForm e.legacy.payload := .inl row
    exact ⟨_, Envelope.ofPublication_of_misshapen current [] measured (by omega),
      iff_of_true formed ⟨_, measured, rfl⟩, absurd formed⟩
  · refine ⟨_, Envelope.ofPublication_of_unmeasured current [] unmeasured, ?_, by simp [unmeasured]⟩
    refine iff_of_false ?_ (by simp)
    rintro (row | ⟨a, payload, _⟩)
    · exact rowless row
    · rw [payload] at unmeasured
      cases unmeasured
  · obtain ⟨keys, channel, counted⟩ := build_legacyChannel h
    have two : e.legacy.channel.length = 2 := by rw [channel, List.length_cons, counted, one]
    have answer := Envelope.ofPublication_address current [] a two
    have measured : (Datum.address a).length? = some a.text.length :=
      Datum.length?_text (.address a)
    have formed : op.IsRefusedForForm (.address a) ↔ a.text.length ≠ 6 := by
      simp [IsRefusedForForm, rowless, Datum.address]
    rw [payload, formed, measured]
    refine ⟨_, answer, ?_⟩
    by_cases six : a.text.length = 6 <;> simp [six]

end Operation

/-- Arguments for several operations. -/
def CallerArguments.several : CallerArguments
  | .user | .destination | .pausedBy | .oldAdmin => .address ⟨"alice"⟩
  | .newAdmin => .address ⟨"GBOB_1"⟩
  | .token => .address ⟨"token"⟩
  | .amount => .number 9
  | .lockPeriod => .number 86400
  | .authorized => .flag true
  | _ => .null

namespace Operation

theorem build_refused_stake : ∃ e, (stake.build .several .ledger).1 = .ok e ∧
    (Envelope.ofPublication Version.current e.legacy.channel e.legacy.payload).outcome
      = (.error (.notEnvelope 2 3), []) := by
  obtain ⟨e, built⟩ : ∃ e, (stake.build .several .ledger).1 = .ok e := ⟨_, rfl⟩
  obtain ⟨f, answer, formed, _⟩ := build_refused (Prod.ext built rfl) Version.current
  obtain ⟨n, measured, rfl⟩ := formed.mp (.inl ⟨_, rfl⟩)
  refine ⟨e, built, answer.trans ?_⟩
  cases built
  cases measured
  rfl

/-- Payloads without a length, and one that has the length of an envelope's. -/
theorem build_refused_otherwise :
    (∃ e, (mint.build .several .ledger).1 = .ok e ∧ e.legacy.payload = .number 9 ∧
      (Envelope.ofPublication Version.current e.legacy.channel e.legacy.payload).outcome
        = (.error (.misuse .notMeasurable), [])) ∧
    (∃ e, (authorizationChanged.build .several .ledger).1 = .ok e ∧
      e.legacy.payload = .flag true ∧
      (Envelope.ofPublication Version.current e.legacy.channel e.legacy.payload).outcome
        = (.error (.misuse .notMeasurable), [])) ∧
    (∃ e, (contractPaused.build .several .ledger).1 = .ok e ∧
      (∃ t, e.legacy.payload = .struct t) ∧
      (Envelope.ofPublication Version.current e.legacy.channel e.legacy.payload).outcome
        = (.error (.misuse .notMeasurable), [])) ∧
    ∃ e, (adminChanged.build .several .ledger).1 = .ok e ∧
      e.legacy.payload = .address ⟨"GBOB_1"⟩ ∧
      (Envelope.ofPublication Version.current e.legacy.channel e.legacy.payload).outcome
        = (.error (.misuse .notComparable), []) := by
  refine ⟨⟨_, rfl, rfl, rfl⟩, ⟨_, rfl, rfl, rfl⟩, ⟨_, rfl, ⟨_, rfl⟩, rfl⟩, _, rfl, rfl, ?_⟩
  exact Envelope.ofPublication_address Version.current [] ⟨"GBOB_1"⟩ rfl

end Operation

end EventEnvelope
