import EventEnvelope.Proofs.ClockReading
import EventEnvelope.Proofs.OperationAdmission

/-! The values behind the records of an operation. An argument has one typed value, which the length
limit in force decides and nothing else, so the assignment that both records are laid out from can
be told from the arguments. Main statement: an operation that builds its records has laid out that
assignment, and has stamped it with the host's identity, clock and version. -/

namespace EventEnvelope

theorem eq_ok_of_toOption {ε α : Type} {r : Except ε α} {a : α} (h : r.toOption = some a) :
    r = .ok a := by
  cases r with
  | error e => cases h
  | ok b =>
    cases h
    rfl

theorem Admission.integer_eq_ok {d : Datum} {n : Int} (h : integer d = .ok n) :
    d = .number n ∧ Value.inRange n = true := by
  cases d with
  | number m =>
    simp only [integer] at h
    split at h
    · next range =>
      cases h
      exact ⟨rfl, range⟩
    · cases h
  | _ => cases h

/-- The symbol that a text becomes under the limit in force. A symbol is taken as it is, whether or
not there is a limit. -/
def Datum.interned? (limit? : Option Nat) : Datum → Option Symbol
  | .text (.symbol s) => some s
  | d => limit?.bind fun limit => (Admission.symbol limit d).toOption

theorem Datum.interned?_of_symbolOf {limit : Nat} {t : Text} {x : Symbol}
    (free : ∀ y, t ≠ .symbol y) (h : Admission.symbolOf limit t = .ok x) :
    (Datum.text t).interned? (some limit) = some x := by
  cases t with
  | symbol y => exact absurd rfl (free y)
  | _ =>
    simp only [interned?, Option.bind_some, Admission.symbol, h]
    rfl

/-- The typed value of an argument, by the kind of the field's values. -/
def Field.value? (limit? : Option Nat) (f : Field) (d : Datum) : Option Value :=
  match f.role with
  | .identity => (Admission.address d).toOption.map .address
  | .number => (Admission.integer d).toOption.map .number
  | .flag => (Admission.flag d).toOption.map .flag
  | .text => (d.interned? limit?).map .symbol

theorem Field.role_of_value? {limit? : Option Nat} {f : Field} {d : Datum} {v : Value}
    (h : f.value? limit? d = some v) : v.role = f.role := by
  unfold value? at h
  split at h
  all_goals
    next role =>
      obtain ⟨a, _, rfl⟩ := Option.map_eq_some_iff.mp h
      exact role.symm

namespace Operation

/-- The values of an operation's parameters. One left out has none, or its placeholder when it is
settled late. -/
def assignment (op : Operation) (limit? : Option Nat) (args : CallerArguments) : Assignment :=
  fun f =>
    if f ∉ op.layout.params then none
    else if op.layout.isAbsent args f then
      if f ∈ op.layout.late then some Layout.placeholder else none
    else f.value? limit? (args f)

/-- How the records of an operation are made: from the values of its parameters, the host's identity
and one reading of the clock. -/
structure Makes (op : Operation) (args : CallerArguments) (s : Surroundings) (e : Emission)
    (m : Metadata) (emitter : Address) (now : Datum) : Prop where
  reading : s.clock s.ticks = .value now
  valued : ∀ f ∈ op.layout.params, op.layout.isAbsent args f = true ∨
    ∃ v, f.value? s.symbolLimit? (args f) = some v
  metadata : Layout.metadataOf (op.assignment s.symbolLimit? args) op.layout.metadata = .ok m
  identified : Admission.address s.identity = .ok emitter
  version : (e.standard.version : Int) = s.version
  time : now ≠ .null → Coerce.integer now = .ok e.standard.timestamp
  standard : e.standard = (op.draft (op.assignment s.symbolLimit? args) m).stamped emitter
    e.standard.timestamp e.standard.version
  channel : e.legacy.channel = op.layout.legacyChannel (op.assignment s.symbolLimit? args)
  payload : Layout.legacyPayload (op.assignment s.symbolLimit? args) now op.layout.legacy
    = .ok e.legacy.payload

end Operation

namespace Build

variable {α : Type} {s s' : Surroundings}

theorem Settles.of_eq_ok {x : Build α} {P : Prop} {promised : α → Surroundings → Prop} {a : α}
    (h : x.Settles s P promised) (run : x s = (.ok a, s')) : P ∧ promised a s' := by
  cases h with
  | returned run' holds kept =>
    cases run.symm.trans run'
    exact ⟨holds, kept⟩
  | refused run' fails encodable => cases run.symm.trans run'

/-- A text that was interned was held against the limit in force. -/
theorem interned_eq_ok {t : Text} {x : Symbol}
    (h : (symbolLimit true >>= fun limit => admitted (Admission.symbolOf limit t)) s
      = (.ok x, s')) :
    ∃ limit : Nat, s.symbolLimit? = some limit ∧ Admission.symbolOf limit t = .ok x := by
  obtain ⟨n, mid, asked, last⟩ := bind_eq_ok h
  obtain ⟨_, ⟨limit, rfl, inForce⟩, _⟩ := (settles_limit s).of_eq_ok asked
  exact ⟨limit, inForce, (admitted_eq_ok last).1⟩

theorem symbol_eq_ok {d : Datum} {x : Symbol} (h : symbol d s = (.ok x, s')) :
    d.interned? s.symbolLimit? = some x := by
  cases d with
  | text t =>
    cases t with
    | symbol y =>
      obtain ⟨_, _, _, last⟩ := bind_eq_ok h
      cases (admitted_eq_ok last).1
      rfl
    | _ =>
      obtain ⟨limit, inForce, interned⟩ := interned_eq_ok h
      exact inForce ▸ Datum.interned?_of_symbolOf (by simp) interned
  | _ =>
    obtain ⟨_, _, _, last⟩ := bind_eq_ok h
    cases (admitted_eq_ok last).1

/-- A typed argument has the value of its kind, and typing it disturbs nothing. -/
theorem typed_eq_ok {f : Field} {d : Datum} {v : Value} (h : typed f d s = (.ok v, s')) :
    f.value? s.symbolLimit? d = some v ∧ s.Undisturbed s' := by
  obtain ⟨_, _, undisturbed⟩ := (settles_typed f d s).of_eq_ok h
  refine ⟨?_, undisturbed⟩
  unfold typed at h
  unfold Field.value?
  -- whatever the kind, one computation is run and its result wrapped
  cases role : f.role with
  | text =>
    rw [role] at h
    obtain ⟨x, _, first, last⟩ := bind_eq_ok h
    cases last
    simp only [symbol_eq_ok first, Option.map_some]
  | _ =>
    rw [role] at h
    obtain ⟨x, _, first, last⟩ := bind_eq_ok h
    cases last
    simp only [(admitted_eq_ok first).1, Except.toOption, Option.map_some]

end Build

namespace Layout

variable {l : Layout} {args : CallerArguments} {a a' : Assignment} {s s' : Surroundings}

/-- What was checked: every parameter listed was left out or has a value, and the assignment holds
just the values of those that were given. -/
theorem check_eq_ok {fs : List Field} (h : l.check args fs a s = (.ok a', s')) :
    s.Undisturbed s' ∧
    (∀ f ∈ fs, l.isAbsent args f = true ∨ ∃ v, f.value? s.symbolLimit? (args f) = some v) ∧
    ∀ f, a' f = if f ∈ fs ∧ l.isAbsent args f = false then f.value? s.symbolLimit? (args f)
      else a f := by
  induction fs generalizing a s with
  | nil =>
    cases h
    exact ⟨.refl _, by simp, by simp⟩
  | cons g fs ih =>
    rw [check] at h
    rw [List.forall_mem_cons]
    split at h
    · next absent =>
      obtain ⟨undisturbed, valued, rest⟩ := ih h
      refine ⟨undisturbed, ⟨.inl absent, valued⟩, fun f => ?_⟩
      by_cases same : f = g
      · subst same
        simp [rest f, absent]
      · simp [rest f, same]
    · next present =>
      obtain ⟨v, mid, typed, h⟩ := Build.bind_eq_ok h
      obtain ⟨value, undisturbed⟩ := Build.typed_eq_ok typed
      obtain ⟨undisturbed', valued, rest⟩ := ih h
      rw [undisturbed.symbolLimit] at valued rest
      refine ⟨undisturbed.trans undisturbed', ⟨.inr ⟨v, value⟩, valued⟩, fun f => ?_⟩
      by_cases same : f = g
      · subst same
        simp [rest f, Assignment.set, present, value]
      · simp [rest f, Assignment.set, same]

theorem settle_eq_ok {name : String} {fs : List Field}
    (h : l.settle name args fs a s = (.ok a', s')) :
    s.Undisturbed s' ∧
    (∀ f ∈ fs, l.isAbsent args f = true ∨ ∃ v, f.value? s.symbolLimit? (args f) = some v) ∧
    ∀ f, a' f = if f ∈ fs then
        if l.isAbsent args f then some placeholder else f.value? s.symbolLimit? (args f)
      else a f := by
  induction fs generalizing a s with
  | nil =>
    cases h
    exact ⟨.refl _, by simp, by simp⟩
  | cons g fs ih =>
    rw [settle] at h
    rw [List.forall_mem_cons]
    split at h
    · next absent =>
      obtain ⟨_, mid, reported, h⟩ := Build.bind_eq_ok h
      obtain ⟨_, undisturbed⟩ := (Build.settles_report _ _ _ s).of_eq_ok reported
      obtain ⟨undisturbed', valued, rest⟩ := ih h
      rw [undisturbed.symbolLimit] at valued rest
      refine ⟨undisturbed.trans undisturbed', ⟨.inl absent, valued⟩, fun f => ?_⟩
      by_cases same : f = g
      · subst same
        simp [rest f, Assignment.set, absent]
      · simp [rest f, Assignment.set, same]
    · next present =>
      obtain ⟨v, mid, typed, h⟩ := Build.bind_eq_ok h
      obtain ⟨value, undisturbed⟩ := Build.typed_eq_ok typed
      obtain ⟨undisturbed', valued, rest⟩ := ih h
      rw [undisturbed.symbolLimit] at valued rest
      refine ⟨undisturbed.trans undisturbed', ⟨.inr ⟨v, value⟩, valued⟩, fun f => ?_⟩
      by_cases same : f = g
      · subst same
        simp [rest f, Assignment.set, present, value]
      · simp [rest f, Assignment.set, same]

end Layout

theorem Draft.version_of_stamps {timestamp : Datum} {version : Int} {t v : Nat}
    (h : stamps timestamp version = .ok (t, v)) : (v : Int) = version := by
  obtain ⟨_, _, _, stamped, pair⟩ := Checked.both_eq_ok h
  cases pair
  have read := Checked.under_eq_ok stamped
  simp only [Document.natural, Coerce.integer] at read
  split at read
  · cases read
  · cases read
    omega

/-- A draft that was stamped: with the host's identity, the version in force and the time it was
given, if it was given one. -/
theorem Build.stamp_stamps {d : Draft} {given : Datum} {s s' : Surroundings} {e : Envelope}
    (h : stamp d given s = (.ok e, s')) :
    ∃ emitter, Admission.address s.identity = .ok emitter ∧ (e.version : Int) = s.version ∧
      (given ≠ .null → Coerce.integer given = .ok e.timestamp) ∧
      e = d.stamped emitter e.timestamp e.version := by
  obtain ⟨emitter, time, t, v, identified, timed, stamps, rfl⟩ := stamp_eq_ok h
  have kept : s'.version = s.version := by
    rcases timed with ⟨_, again⟩ | ⟨_, _, rfl⟩
    · rw [(now_eq_ok again).2]
    · rfl
  refine ⟨emitter, identified, kept ▸ Draft.version_of_stamps stamps, fun present => ?_, rfl⟩
  rcases timed with ⟨absent, _⟩ | ⟨_, rfl, _⟩
  · exact absurd absent present
  · exact Draft.integer_of_stamps stamps

namespace Operation

variable {op : Operation} {args : CallerArguments} {s s' : Surroundings} {e : Emission}

theorem build_makes (h : op.build args s = (.ok e, s')) :
    ∃ m emitter now, op.Makes args s e m emitter now := by
  obtain ⟨a, checked, now, read, a', settled, m, first, told, late, entries, stamped, channel,
    payload⟩ := build_eq_ok h
  obtain ⟨before, valued, checkedAs⟩ := Layout.check_eq_ok first
  obtain ⟨asked, rfl⟩ := Build.now_eq_ok told
  obtain ⟨after, valuedLate, settledAs⟩ := Layout.settle_eq_ok late
  have limit : Surroundings.symbolLimit? { checked with ticks := checked.ticks + 1 }
      = s.symbolLimit? := before.symbolLimit
  rw [limit] at valuedLate settledAs
  -- the two passes together give every parameter its value
  have assigned : a' = op.assignment s.symbolLimit? args := by
    funext f
    rw [settledAs f, checkedAs f, assignment]
    have listed := op.mem_params_iff f
    by_cases isLate : f ∈ op.layout.late
    · simp [listed, isLate]
    · by_cases isChecked : f ∈ op.layout.checks
      · by_cases absent : op.layout.isAbsent args f = true
        · simp [listed, isLate, isChecked, absent, Assignment.empty]
        · simp [listed, isLate, isChecked, absent]
      · simp [listed, isLate, isChecked, Assignment.empty]
  subst assigned
  obtain ⟨emitter, identified, version, time, standard⟩ := Build.stamp_stamps stamped
  have identity : settled.identity = s.identity := after.identity.trans before.identity
  have inForce : settled.version = s.version := after.version.trans before.version
  have clock : s.clock s.ticks = .value now := before.reading.symm.trans asked
  refine ⟨m, emitter, now, clock, ?_, entries, identity ▸ identified, inForce ▸ version, time,
    standard, channel, payload⟩
  intro f hf
  rcases (op.mem_params_iff f).mp hf with isChecked | isLate
  · exact valued f isChecked
  · exact valuedLate f isLate

namespace Makes

variable {m : Metadata} {emitter : Address} {now : Datum} {f : Field}

theorem distinct (made : op.Makes args s e m emitter now) : (m.map Prod.fst).Nodup :=
  (Layout.metadataOf_sublist made.metadata).nodup op.nodup_keys

/-- A parameter that may not be left out has the value of its argument. -/
theorem value_of_required (made : op.Makes args s e m emitter now) (listed : f ∈ op.layout.params)
    (required : f ∉ op.layout.optional) :
    ∃ v, f.value? s.symbolLimit? (args f) = some v ∧
      op.assignment s.symbolLimit? args f = some v := by
  have present : ¬op.layout.isAbsent args f = true := fun absent =>
    required (Layout.isAbsent_iff.mp absent).1
  obtain ⟨v, value⟩ := (made.valued f listed).resolve_left present
  refine ⟨v, value, ?_⟩
  simp [assignment, listed, present, value]

/-- What is not left out for good has a value of its kind. -/
theorem value_of_needed (made : op.Makes args s e m emitter now) (listed : f ∈ op.layout.params)
    (needed : f ∉ op.layout.optional ∨ f ∈ op.layout.late) :
    ∃ v, op.assignment s.symbolLimit? args f = some v ∧ v.role = f.role := by
  by_cases absent : op.layout.isAbsent args f = true
  · have late := needed.resolve_left (not_not_intro (Layout.isAbsent_iff.mp absent).1)
    refine ⟨Layout.placeholder, ?_, (op.role_of_late f late).symm⟩
    simp [assignment, listed, absent, late]
  · obtain ⟨v, value⟩ := (made.valued f listed).resolve_left absent
    refine ⟨v, ?_, Field.role_of_value? value⟩
    simp [assignment, listed, absent, value]

end Makes

end Operation

end EventEnvelope
