import EventEnvelope.Proofs.PublishOrder
import EventEnvelope.Proofs.RecordAdmission

/-! Which calls return. An operation is admitted when its parameters take their arguments, its sums
and counts are in range, and the host's identity, clock and version can be stamped. Main statement:
over a transport that accepts everything, a call returns exactly when it is admitted, and otherwise
it ends in an encoding fault with nothing published. -/

namespace EventEnvelope

namespace Operation

/-- Only a reason for minting and the number of a trade may be left out. -/
def Lacks (op : Operation) (args : CallerArguments) (f : Field) : Prop :=
  (op = .mint ∧ f = .reason ∨ op = .tradeExecuted ∧ f = .tradeId) ∧ args f = .null

/-- The fields of the struct that an operation's older record carries, if it carries one. -/
def legacyFields (op : Operation) : List Field :=
  match op.layout.legacy with
  | .struct kind => kind.fields
  | _ => []

/-- An argument that the struct bounds below by zero is not negative. -/
def CountsFit (op : Operation) (args : CallerArguments) : Prop :=
  ∀ f ∈ op.layout.params, f ∈ op.legacyFields → f.isCount = true →
    ∀ n, args f = .number n → 0 ≤ n

/-- Claimed rewards are in range when added up. -/
def TotalFits (op : Operation) (args : CallerArguments) : Prop :=
  op = .rewardsClaimed → ∀ m n, args .baseRewards = .number m → args .bonusRewards = .number n →
    (Datum.number (m + n)).IsAmount

/-- A call that returns, made where the clock tells `now`. -/
structure Admits (op : Operation) (args : CallerArguments) (s : Surroundings) (now : Int) :
    Prop where
  arguments : ∀ f ∈ op.layout.params, op.Lacks args f ∨ f.Takes s.symbolLimit? (args f)
  counts : op.CountsFit args
  total : op.TotalFits args
  identity : s.identity.IsIdentity
  clock : 0 ≤ now
  version : 1 ≤ s.version

end Operation

/-- The value with which a struct is filled. -/
def Assignment.structValue (a : Assignment) (now : Int) (f : Field) : Value :=
  if f = .timestamp then .number now else (a f).getD Layout.placeholder

/-- Where all fields but the time have values, a struct is filled with each of its fields. -/
theorem Layout.structFields_eq {a : Assignment} {kind : LegacyKind} (now : Int)
    (filled : ∀ f ∈ kind.fields, f ≠ .timestamp → ∃ v, a f = some v) :
    structFields a (.number now) kind
      = kind.fields.map fun f => (.plain f.name, (a.structValue now f).toDatum) := by
  rw [structFields, ← List.filterMap_eq_map]
  refine List.filterMap_congr fun f hf => ?_
  by_cases time : f = .timestamp
  · subst time
    rfl
  · obtain ⟨v, present⟩ := filled f hf time
    simp [time, present, Assignment.structValue]

namespace Operation

variable {op : Operation} {args : CallerArguments} {a : Assignment}

theorem mem_params_iff (op : Operation) (f : Field) :
    f ∈ op.layout.params ↔ f ∈ op.layout.checks ∨ f ∈ op.layout.late := by
  have listed : (∀ f ∈ op.layout.params, f ∈ op.layout.checks ++ op.layout.late) ∧
      ∀ f ∈ op.layout.checks ++ op.layout.late, f ∈ op.layout.params := by
    cases op <;> decide
  rw [← List.mem_append]
  exact ⟨listed.1 f, listed.2 f⟩

theorem role_of_late (op : Operation) : ∀ f ∈ op.layout.late, f.role = .number := by
  cases op <;> decide

/-- What a struct of the older format holds beside the time is never left out for good. -/
theorem needed_of_struct {kind : LegacyKind} (h : op.layout.legacy = .struct kind) :
    ∀ f ∈ kind.fields, f = .timestamp ∨
      f ∈ op.layout.params ∧ (f ∉ op.layout.optional ∨ f ∈ op.layout.late) := by
  cases op <;> cases h <;> decide

theorem mem_optional_iff (op : Operation) (f : Field) :
    f ∈ op.layout.optional ↔ op = .mint ∧ f = .reason ∨ op = .tradeExecuted ∧ f = .tradeId := by
  cases op <;> simp [layout]

theorem metadataOf_ok (a : Assignment) (h : op ≠ .rewardsClaimed) :
    ∃ m, Layout.metadataOf a op.layout.metadata = .ok m := by
  have fields : op.layout.metadata.all (fun e => e.2 matches .field _) = true := by
    cases op <;> first | decide | contradiction
  rw [Layout.metadataOf_ok_iff]
  intro e he
  have plain := List.all_eq_true.mp fields e he
  cases source : e.2 with
  | field f => exact ⟨_, rfl⟩
  | total f g => rw [source] at plain; cases plain

theorem timestamp_notMem (op : Operation) : Field.timestamp ∉ op.layout.params := by
  cases op <;> decide

section Filled

variable (filled : a.Fills args (op.layout.late ++ op.layout.given args op.layout.checks))

include filled

theorem filled_needed {f : Field} (hf : f ∈ op.layout.params)
    (needed : f ∉ op.layout.optional ∨ f ∈ op.layout.late) :
    ∃ v, a f = some v ∧ f.IsGiven (args f) v := by
  apply filled
  rw [List.mem_append]
  rcases needed with required | late
  · rcases (op.mem_params_iff f).mp hf with checked | late
    · right
      have present : op.layout.isAbsent args f = false := by
        rw [Bool.eq_false_iff, ne_eq, Layout.isAbsent_iff]
        exact fun absent => required absent.1
      simp [Layout.given, checked, present]
    · exact .inl late
  · exact .inl late

theorem number_of_taken {limit? : Option Nat}
    (taken : op.layout.Accepts args limit? op.layout.checks) {f : Field}
    (checked : f ∈ op.layout.checks) (required : f ∉ op.layout.optional)
    (role : f.role = .number) : ∃ n, args f = .number n ∧ a f = some (.number n) := by
  rcases taken f checked with absent | takes
  · exact absurd (Layout.isAbsent_iff.mp absent).1 required
  · rw [Field.Takes, role] at takes
    cases own : args f with
    | number n =>
      have listed := (op.mem_params_iff f).mpr (.inl checked)
      obtain ⟨v, present, stands⟩ := filled_needed filled listed (.inl required)
      rw [own] at stands
      exact ⟨n, rfl, stands.eq_number role ▸ present⟩
    | _ => rw [own] at takes; exact takes.elim

/-- Metadata is laid out unless claimed rewards add up to what is no amount. -/
theorem metadataOf_ok_iff {limit? : Option Nat}
    (taken : op.layout.Accepts args limit? op.layout.checks) :
    (∃ m, Layout.metadataOf a op.layout.metadata = .ok m) ↔ op.TotalFits args := by
  by_cases claimed : op = .rewardsClaimed
  · subst claimed
    obtain ⟨m, base, baseFilled⟩ :=
      number_of_taken filled taken (f := .baseRewards) (by decide) (by decide) rfl
    obtain ⟨n, bonus, bonusFilled⟩ :=
      number_of_taken filled taken (f := .bonusRewards) (by decide) (by decide) rfl
    have total : TotalFits .rewardsClaimed args ↔ (Datum.number (m + n)).IsAmount := by
      simp [TotalFits, base, bonus]
    rw [Layout.metadataOf_ok_iff, total, ← Admission.integer_ok_iff]
    cases added : Admission.integer (.number (m + n)) <;>
      simp [layout, Layout.sourceValue, baseFilled, bonusFilled, added, Except.map]
  · exact iff_of_true (metadataOf_ok a claimed) fun same => absurd same claimed

section Struct

variable {kind : LegacyKind} (carried : op.layout.legacy = .struct kind) (now : Int) {f : Field}
  (hf : f ∈ kind.fields)

include carried hf

theorem structValue_filled (timeless : f ≠ .timestamp) : f ∈ op.layout.params ∧
    a f = some (a.structValue now f) ∧ f.IsGiven (args f) (a.structValue now f) := by
  obtain ⟨listed, needed⟩ := (needed_of_struct carried f hf).resolve_left timeless
  obtain ⟨v, present, stands⟩ := filled_needed filled listed needed
  have same : a.structValue now f = v := by simp [Assignment.structValue, timeless, present]
  rw [same]
  exact ⟨listed, present, stands⟩

theorem role_structValue : (a.structValue now f).role = f.role := by
  by_cases time : f = .timestamp
  · subst time
    rfl
  · exact (structValue_filled filled carried now hf time).2.2.role

theorem fits_structValue_iff (begun : 0 ≤ now) : f.fits (a.structValue now f) = true ↔
    (f ∈ op.layout.params → f.isCount = true → ∀ n, args f = .number n → 0 ≤ n) := by
  rw [Value.fits_iff (role_structValue filled carried now hf)]
  by_cases time : f = .timestamp
  · subst time
    refine iff_of_true (fun _ n same => ?_) fun listed => absurd listed op.timestamp_notMem
    cases same
    exact begun
  · obtain ⟨listed, _, stands⟩ := structValue_filled filled carried now hf time
    constructor
    · intro fits _ count n own
      rw [own] at stands
      exact fits count n (stands.eq_number (Field.role_of_isCount count))
    · intro counts count n same
      rcases stands.number n same with own | ⟨_, rfl⟩
      · exact counts listed count n own
      · exact Int.le_refl 0

end Struct

/-- The older record's payload is made unless its struct refuses an argument. -/
theorem legacyPayload_ok_iff {now : Int} (begun : 0 ≤ now) :
    (∃ d, Layout.legacyPayload a (.number now) op.layout.legacy = .ok d) ↔ op.CountsFit args := by
  cases carried : op.layout.legacy with
  | single f => simp [Layout.legacyPayload, CountsFit, legacyFields, carried]
  | row fs => simp [Layout.legacyPayload, CountsFit, legacyFields, carried]
  | struct kind =>
    have named := Layout.structFields_eq now fun f hf timeless =>
      ⟨_, (structValue_filled filled carried now hf timeless).2.1⟩
    have made : (∃ d, Layout.legacyPayload a (.number now) (.struct kind) = .ok d) ↔
        ∃ s, kind.read (Layout.structFields a (.number now) kind) = .ok s := by
      simp only [Layout.legacyPayload]
      cases kind.read (Layout.structFields a (.number now) kind) <;> simp [Except.map]
    rw [made, named, LegacyKind.read_ok_iff fun f => role_structValue filled carried now,
      CountsFit, legacyFields, carried]
    constructor
    · intro fits f listed hf
      exact (fits_structValue_iff filled carried now hf begun).mp (fits f hf) listed
    · intro counts f hf
      exact (fits_structValue_iff filled carried now hf begun).mpr fun listed => counts f listed hf

end Filled

theorem lacks_iff {f : Field} : op.Lacks args f ↔ op.layout.isAbsent args f = true := by
  rw [Lacks, Layout.isAbsent_iff, mem_optional_iff]

theorem accepts_params_iff {limit? : Option Nat} :
    (∀ f ∈ op.layout.params, op.Lacks args f ∨ f.Takes limit? (args f)) ↔
      op.layout.Accepts args limit? op.layout.checks ∧
        op.layout.Accepts args limit? op.layout.late := by
  simp only [Layout.Accepts, lacks_iff, mem_params_iff, or_imp, forall_and]

/-- Building the records of an operation settles whether the call is admitted. -/
theorem settles_build (op : Operation) (args : CallerArguments) {s : Surroundings} {now : Int}
    (reading : s.clock s.ticks = .value (.number now)) :
    (op.build args).Settles s (op.Admits args s now) fun _ _ => True := by
  have admits : (op.layout.Accepts args s.symbolLimit? op.layout.checks ∧ True ∧
      op.layout.Accepts args s.symbolLimit? op.layout.late ∧ op.TotalFits args ∧
      (s.identity.IsIdentity ∧ 0 ≤ now ∧ 1 ≤ s.version) ∧ op.CountsFit args) ↔
      op.Admits args s now := by
    constructor
    · rintro ⟨checks, _, late, total, ⟨identity, clock, version⟩, counts⟩
      exact ⟨accepts_params_iff.mpr ⟨checks, late⟩, counts, total, identity, clock, version⟩
    · rintro ⟨arguments, counts, total, identity, clock, version⟩
      obtain ⟨checks, late⟩ := accepts_params_iff.mp arguments
      exact ⟨checks, trivial, late, total, ⟨identity, clock, version⟩, counts⟩
  -- every step is settled where it starts, and the way there left what decides undisturbed
  have unfilled : Assignment.empty.Fills args [] := by simp [Assignment.Fills]
  refine ((op.layout.settles_check args op.layout.checks unfilled s).bind ?_).congr admits
  rintro a s₁ taken ⟨undisturbed, filled⟩
  rw [List.append_nil] at filled
  refine (Build.settles_now (undisturbed.reading.trans reading)).bind ?_
  rintro _ s₂ _ ⟨rfl, rfl⟩
  refine ((op.layout.settles_settle op.name args op.layout.late op.role_of_late filled _).congr
    (by rw [← undisturbed.symbolLimit]; rfl)).bind ?_
  rintro a s₃ _ ⟨undisturbed', filled⟩
  refine ((Build.settles_admitted _ s₃).congr (metadataOf_ok_iff filled taken)).bind ?_
  rintro m s₄ _ ⟨_, rfl⟩
  have identity : s₄.identity = s.identity := undisturbed'.identity.trans undisturbed.identity
  have version : s₄.version = s.version := undisturbed'.version.trans undisturbed.version
  refine ((Build.settles_stamp _ (.given rfl)).congr (by rw [identity, version])).bind ?_
  rintro standard s₅ stamped _
  have made := legacyPayload_ok_iff filled stamped.2.1
  cases payload : Layout.legacyPayload a (.number now) op.layout.legacy with
  | ok d =>
    simp only
    exact .returned rfl (made.mp ⟨d, payload⟩) trivial
  | error faults =>
    simp only
    refine .refused rfl ?_ fun topic => ⟨.record topic faults, rfl⟩
    rw [← made, payload]
    simp

end Operation

theorem Transport.handOver_accepting {σ : Type} {t : Transport σ}
    (accepting : ∀ s p, (t s p).outcome = .ok ()) (s : σ) (ps : List Publication) :
    (t.handOver s ps).1 = .ok () := by
  induction ps generalizing s with
  | nil => rfl
  | cons p ps ih =>
    rw [handOver, accepting]
    exact ih _

namespace Emitter

/-- Over a transport that accepts everything, a call returns exactly when it is admitted; one that
is not admitted ends in an encoding fault, with nothing published. -/
theorem perform_returns_iff {σ : Type} (em : Emitter) (t : Transport σ)
    (accepting : ∀ s p, (t s p).outcome = .ok ()) (op : Operation) (args : CallerArguments)
    (w : World σ) {now : Int}
    (clock : w.surroundings.clock w.surroundings.ticks = .value (.number now)) :
    ((∃ e, (em.perform t op args w).1 = .ok e) ↔ op.Admits args w.surroundings now) ∧
    (¬op.Admits args w.surroundings now →
      (∃ fault, (em.perform t op args w).1 = .error (.encoding fault)) ∧
        (em.perform t op args w).2.transport = w.transport) := by
  unfold perform
  rw [Emit.bind_apply]
  cases op.settles_build args clock with
  | @returned e s' run admitted _ =>
    have built : (op.build args w.surroundings).1 = .ok e := congrArg Prod.fst run
    rw [em.encoding_ok op.topic built]
    have answer (w' : World σ) : (em.deliver t e w').1 = .ok e := by
      rw [(em.deliver_apply t e w').1, Transport.handOver_accepting accepting]
      rfl
    exact ⟨iff_of_true ⟨e, answer _⟩ admitted, fun refused => absurd admitted refused⟩
  | @refused e s' run refused encodable =>
    obtain ⟨w', kept, rejected⟩ := em.encoding_error op.topic (congrArg Prod.fst run)
    obtain ⟨fault, encoded⟩ := encodable op.topic
    rw [rejected, encoded]
    exact ⟨iff_of_false (by simp) refused, fun _ => ⟨⟨fault, rfl⟩, kept⟩⟩

end Emitter

/-- Arguments at the edges of their ranges: a trade may be made of them, but the rewards add up to
what is no amount. -/
def CallerArguments.extreme : CallerArguments
  | .trader | .user => .address ⟨"alice"⟩
  | .feeToken | .token => .plain "GOLD"
  | .pair => .plain "GOLD_USD"
  | .amount | .price => .number (-0x80000000000000000000000000000000)
  | .feeAmount | .bonusRewards => .number 1
  | .baseRewards => .number 0xffffffffffffffffffffffffffffffff
  | .isBuy => .flag true
  | _ => .null

namespace Operation

theorem admits_extreme_trade :
    tradeExecuted.Admits .extreme .ledger 1700000000 := by
  have limit : Surroundings.ledger.symbolLimit? = some 32 := by rfl
  have short : (CodeText.proper "GOLD_USD").length ≤ 32 := by decide
  have symbolic : ∀ p ∈ (CodeText.proper "GOLD_USD").points, p.IsSymbolic := by decide
  constructor
  · rw [limit]
    simp [layout, Lacks, Field.Takes, Field.role, CallerArguments.extreme, Datum.IsIdentity,
      Datum.IsAmount, Datum.IsFlag, Datum.IsWord, Datum.address, Datum.plain, Text.content, short]
    exact symbolic
  · simp [CountsFit, layout, legacyFields, LegacyKind.fields, CallerArguments.extreme,
      Field.isCount]
  · simp [TotalFits]
  · trivial
  · decide
  · decide

theorem not_admits_extreme_rewards {s : Surroundings} {now : Int} :
    ¬rewardsClaimed.Admits .extreme s now := by
  intro admits
  have total := admits.total rfl _ _ rfl rfl
  simp [Datum.IsAmount] at total

end Operation

namespace Emitter

theorem perform_returns_extreme :
    let em : Emitter := ⟨⟨"stellara_event"⟩, true⟩
    let w : World (List Publication) := ⟨.ledger, [], []⟩
    let keep : Transport (List Publication) := fun kept p => ⟨.ok (), kept ++ [p], []⟩
    (∃ e, (em.perform keep .tradeExecuted .extreme w).1 = .ok e) ∧
    (∃ fault, (em.perform keep .rewardsClaimed .extreme w).1 = .error (.encoding fault)) ∧
    (em.perform keep .rewardsClaimed .extreme w).2.transport = [] := by
  intro em w keep
  have clock : w.surroundings.clock w.surroundings.ticks = .value (.number 1700000000) := rfl
  have accepting : ∀ kept p, (keep kept p).outcome = .ok () := fun _ _ => rfl
  have trade := perform_returns_iff em keep accepting .tradeExecuted .extreme w clock
  have rewards := perform_returns_iff em keep accepting .rewardsClaimed .extreme w clock
  exact ⟨trade.1.mpr Operation.admits_extreme_trade,
    rewards.2 Operation.not_admits_extreme_rewards⟩

end Emitter

end EventEnvelope
