import EventEnvelope.Proofs.ArgumentValues

/-! What each operation promises its consumers, written out as a table: one row for each operation,
made of its arguments once they are typed. Consumers read a record by position, so a row says what
stands where. Main statement: what a call returns is the row of its operation, stamped with the
host's identity and clock and the version in force. -/

namespace EventEnvelope

namespace CallerArguments

variable (args : CallerArguments)

def identity? (f : Field) : Option Address := (Admission.address (args f)).toOption

def number? (f : Field) : Option Int := (Admission.integer (args f)).toOption

def flag? (f : Field) : Option Bool := (Admission.flag (args f)).toOption

def word? (limit? : Option Nat) (f : Field) : Option Symbol := (args f).interned? limit?

/-- An argument that may be left out, read in the given way unless it was. -/
def ifGiven {α : Type} (f : Field) (read : Field → Option α) : Option (Option α) :=
  match args f with
  | .null => some none
  | _ => (read f).map some

end CallerArguments

/-- What the older record carries: a value, or a struct with its values under their names. -/
inductive Row.Payload
  | value (d : Datum)
  | struct (kind : LegacyKind) (entries : List (Field × Value))

/-- Both records of an operation, without the stamps. -/
structure Row where
  topic : Topic
  actor : Address
  data : List Value
  metadata : List (MetadataKey × Value)
  channel : List Datum
  payload : Row.Payload

def Row.Payload.Describes : Row.Payload → Datum → Prop
  | value d, p => p = d
  | struct kind entries, p => ∃ s, p = .struct s ∧ s.kind = kind ∧ s.entries = entries

/-- The records of an emission are those of the row, with the stamps; every metadata key stands for
one value. -/
structure Emission.Follows (e : Emission) (row : Row) (emitter : Address) (time version : Int) :
    Prop where
  topic : e.standard.topic = row.topic
  emitter : e.standard.emitter = .address emitter
  actor : e.standard.actor = .address row.actor
  data : e.standard.data = row.data.map Value.toDatum
  metadata : e.standard.metadata = row.metadata.map fun m => (m.1, [m.2.toDatum])
  time : (e.standard.timestamp : Int) = time
  version : (e.standard.version : Int) = version
  channel : e.legacy.channel = row.channel
  payload : row.payload.Describes e.legacy.payload

namespace Operation

/-- The table: the row of an operation with these arguments, at this time. -/
def row? (op : Operation) (limit? : Option Nat) (args : CallerArguments) (now : Int) :
    Option Row :=
  match op with
  | .transfer => do
    let sender ← args.identity? .sender
    let destination ← args.identity? .destination
    let amount ← args.number? .amount
    let token ← args.identity? .token
    return {
      topic := .transfer
      actor := sender
      data := [.number amount, .address token]
      metadata := [(.sender, .address sender), (.recipient, .address destination),
        (.amount, .number amount), (.token, .address token)]
      channel := [.topic .transfer, .address sender, .address destination]
      payload := .value (.number amount) }
  | .approve => do
    let owner ← args.identity? .owner
    let spender ← args.identity? .spender
    let amount ← args.number? .amount
    let token ← args.identity? .token
    return {
      topic := .approve
      actor := owner
      data := [.number amount, .address token]
      metadata := [(.sender, .address owner), (.recipient, .address spender),
        (.amount, .number amount), (.token, .address token)]
      channel := [.topic .approve, .address owner, .address spender]
      payload := .value (.number amount) }
  | .mint => do
    let destination ← args.identity? .destination
    let amount ← args.number? .amount
    let token ← args.identity? .token
    let reason ← args.ifGiven .reason (args.word? limit?)
    return {
      topic := .mint
      actor := destination
      data := [.number amount, .address token] ++ (reason.map .symbol).toList
      metadata := [(.recipient, .address destination), (.amount, .number amount),
        (.token, .address token)] ++ (reason.map fun r => (.reason, .symbol r)).toList
      channel := [.topic .mint, .address destination]
      payload := .value (.number amount) }
  | .burn => do
    let sender ← args.identity? .sender
    let amount ← args.number? .amount
    let token ← args.identity? .token
    return {
      topic := .burn
      actor := sender
      data := [.number amount, .address token]
      metadata := [(.sender, .address sender), (.amount, .number amount),
        (.token, .address token)]
      channel := [.topic .burn, .address sender]
      payload := .value (.number amount) }
  | .stake => do
    let user ← args.identity? .user
    let amount ← args.number? .amount
    let lockPeriod ← args.number? .lockPeriod
    let token ← args.identity? .token
    return {
      topic := .stake
      actor := user
      data := [.number amount, .number lockPeriod, .address token]
      metadata := [(.amount, .number amount), (.lockPeriod, .number lockPeriod),
        (.token, .address token)]
      channel := [.topic .stake, .address user]
      payload := .value (.tuple [.number amount, .number lockPeriod, .number now]) }
  | .unstake => do
    let user ← args.identity? .user
    let amount ← args.number? .amount
    let rewards ← args.number? .rewards
    let fee ← args.number? .fee
    let token ← args.identity? .token
    return {
      topic := .unstake
      actor := user
      data := [.number amount, .number rewards, .number fee, .address token]
      metadata := [(.amount, .number amount), (.fee, .number fee), (.token, .address token)]
      channel := [.topic .unstake, .address user]
      payload := .value (.tuple [.number amount, .number rewards, .number fee, .number now]) }
  | .rewardsClaimed => do
    let user ← args.identity? .user
    let base ← args.number? .baseRewards
    let bonus ← args.number? .bonusRewards
    let token ← args.identity? .token
    return {
      topic := .rewardsClaimed
      actor := user
      data := [.number base, .number bonus, .address token]
      metadata := [(.amount, .number (base + bonus)), (.token, .address token)]
      channel := [.topic .rewardsClaimed, .address user]
      payload := .value (.tuple [.number base, .number bonus, .number now]) }
  | .poolUpdated => do
    let admin ← args.identity? .admin
    let rewardRate ← args.number? .rewardRate
    let bonusMultiplier ← args.number? .bonusMultiplier
    return {
      topic := .poolUpdated
      actor := admin
      data := [.number rewardRate, .number bonusMultiplier]
      metadata := [(.rewardRate, .number rewardRate)]
      channel := [.topic .poolUpdated, .address admin]
      payload := .value (.tuple [.number rewardRate, .number bonusMultiplier, .number now]) }
  | .vote => do
    let voter ← args.identity? .voter
    let proposalId ← args.number? .proposalId
    let voteType ← args.word? limit? .voteType
    let votingPower ← args.number? .votingPower
    return {
      topic := .vote
      actor := voter
      data := [.number proposalId, .symbol voteType, .number votingPower]
      metadata := [(.proposalId, .number proposalId), (.voteType, .symbol voteType)]
      channel := [.topic .vote, .address voter]
      payload := .value (.tuple [.number proposalId, .symbol voteType, .number votingPower,
        .number now]) }
  | .proposalCreated => do
    let proposer ← args.identity? .proposer
    let proposalId ← args.number? .proposalId
    let title ← args.word? limit? .title
    let proposalType ← args.word? limit? .proposalType
    return {
      topic := .proposalCreated
      actor := proposer
      data := [.number proposalId, .symbol title, .symbol proposalType]
      metadata := [(.proposalId, .number proposalId)]
      channel := [.topic .proposalCreated, .address proposer]
      -- the older record keeps the title as plain text
      payload := .value (.tuple [.number proposalId, .plain title.text, .symbol proposalType,
        .number now]) }
  | .proposalExecuted => do
    let executor ← args.identity? .executor
    let proposalId ← args.number? .proposalId
    let success ← args.flag? .success
    return {
      topic := .proposalExecuted
      actor := executor
      data := [.number proposalId, .flag success]
      metadata := [(.proposalId, .number proposalId)]
      channel := [.topic .proposalExecuted, .address executor]
      payload := .value (.tuple [.number proposalId, .flag success, .number now]) }
  | .proposalApproved => do
    let approver ← args.identity? .approver
    let proposalId ← args.number? .proposalId
    let currentApprovals ← args.number? .currentApprovals
    let threshold ← args.number? .threshold
    return {
      topic := .proposalApproved
      actor := approver
      data := [.number proposalId, .number currentApprovals, .number threshold]
      metadata := [(.proposalId, .number proposalId)]
      channel := [.topic .proposalApproved]
      payload := .struct .proposalApproved [(.proposalId, .number proposalId),
        (.approver, .address approver), (.currentApprovals, .number currentApprovals),
        (.threshold, .number threshold), (.timestamp, .number now)] }
  | .proposalRejected => do
    let rejector ← args.identity? .rejector
    let proposalId ← args.number? .proposalId
    return {
      topic := .proposalRejected
      actor := rejector
      data := [.number proposalId]
      metadata := [(.proposalId, .number proposalId)]
      channel := [.topic .proposalRejected]
      payload := .struct .proposalRejected [(.proposalId, .number proposalId),
        (.rejector, .address rejector), (.timestamp, .number now)] }
  | .proposalCancelled => do
    let cancelledBy ← args.identity? .cancelledBy
    let proposalId ← args.number? .proposalId
    return {
      topic := .proposalCancelled
      actor := cancelledBy
      data := [.number proposalId]
      metadata := [(.proposalId, .number proposalId)]
      channel := [.topic .proposalCancelled]
      payload := .struct .proposalCancelled [(.proposalId, .number proposalId),
        (.cancelledBy, .address cancelledBy), (.timestamp, .number now)] }
  | .upgradeProposed => do
    let proposer ← args.identity? .proposer
    let proposalId ← args.number? .proposalId
    let newContractHash ← args.word? limit? .newContractHash
    let targetContract ← args.identity? .targetContract
    let description ← args.word? limit? .description
    let approvalThreshold ← args.number? .approvalThreshold
    let timelockDelay ← args.number? .timelockDelay
    return {
      topic := .upgradeProposed
      actor := proposer
      data := [.number proposalId, .symbol newContractHash, .address targetContract,
        .symbol description, .number approvalThreshold, .number timelockDelay]
      metadata := [(.proposalId, .number proposalId), (.recipient, .address targetContract)]
      channel := [.topic .proposalCreated]
      payload := .struct .proposalCreated [(.proposalId, .number proposalId),
        (.proposer, .address proposer), (.newContractHash, .symbol newContractHash),
        (.targetContract, .address targetContract), (.description, .symbol description),
        (.approvalThreshold, .number approvalThreshold), (.timelockDelay, .number timelockDelay),
        (.timestamp, .number now)] }
  | .upgradeExecuted => do
    let executor ← args.identity? .executor
    let proposalId ← args.number? .proposalId
    let newContractHash ← args.word? limit? .newContractHash
    return {
      topic := .upgradeExecuted
      actor := executor
      data := [.number proposalId, .symbol newContractHash]
      metadata := [(.proposalId, .number proposalId)]
      channel := [.topic .proposalExecuted]
      payload := .struct .proposalExecuted [(.proposalId, .number proposalId),
        (.executor, .address executor), (.newContractHash, .symbol newContractHash),
        (.timestamp, .number now)] }
  | .adminChanged => do
    let oldAdmin ← args.identity? .oldAdmin
    let newAdmin ← args.identity? .newAdmin
    return {
      topic := .adminChanged
      actor := oldAdmin
      data := [.address oldAdmin, .address newAdmin]
      metadata := [(.sender, .address oldAdmin), (.recipient, .address newAdmin)]
      channel := [.topic .adminChanged, .address oldAdmin]
      payload := .value (.address newAdmin) }
  | .authorizationChanged => do
    let user ← args.identity? .user
    let authorized ← args.flag? .authorized
    return {
      topic := .authorizationChanged
      actor := user
      data := [.flag authorized]
      metadata := [(.recipient, .address user)]
      channel := [.topic .authorizationChanged, .address user]
      payload := .value (.flag authorized) }
  | .contractPaused => do
    let pausedBy ← args.identity? .pausedBy
    return {
      topic := .contractPaused
      actor := pausedBy
      data := [.address pausedBy]
      metadata := [(.sender, .address pausedBy)]
      channel := [.topic .contractPaused]
      payload := .struct .contractPaused [(.pausedBy, .address pausedBy),
        (.timestamp, .number now)] }
  | .contractUnpaused => do
    let unpausedBy ← args.identity? .unpausedBy
    return {
      topic := .contractUnpaused
      actor := unpausedBy
      data := [.address unpausedBy]
      metadata := [(.sender, .address unpausedBy)]
      channel := [.topic .contractUnpaused]
      payload := .struct .contractUnpaused [(.unpausedBy, .address unpausedBy),
        (.timestamp, .number now)] }
  | .tradeExecuted => do
    let trader ← args.identity? .trader
    let pair ← args.word? limit? .pair
    let amount ← args.number? .amount
    let price ← args.number? .price
    let isBuy ← args.flag? .isBuy
    let feeAmount ← args.number? .feeAmount
    let feeToken ← args.identity? .feeToken
    let tradeId ← args.ifGiven .tradeId args.number?
    return {
      topic := .tradeExecuted
      actor := trader
      data := [.symbol pair, .number amount, .number price, .flag isBuy, .number feeAmount,
        .address feeToken]
      metadata := [(.pair, .symbol pair), (.amount, .number amount), (.price, .number price),
        (.fee, .number feeAmount), (.token, .address feeToken)]
      channel := [.topic .tradeExecuted]
      -- a trade without a number is entered under zero
      payload := .struct .tradeExecuted [(.tradeId, .number (tradeId.getD 0)),
        (.trader, .address trader), (.pair, .symbol pair), (.amount, .number amount),
        (.price, .number price), (.isBuy, .flag isBuy), (.feeAmount, .number feeAmount),
        (.feeToken, .address feeToken), (.timestamp, .number now)] }
  | .feeCollected => do
    let payer ← args.identity? .payer
    let recipient ← args.identity? .recipient
    let amount ← args.number? .amount
    let token ← args.identity? .token
    return {
      topic := .feeCollected
      actor := payer
      data := [.number amount, .address token]
      metadata := [(.sender, .address payer), (.recipient, .address recipient),
        (.amount, .number amount), (.token, .address token)]
      channel := [.topic .feeCollected]
      payload := .struct .feeCollected [(.payer, .address payer), (.recipient, .address recipient),
        (.amount, .number amount), (.token, .address token), (.timestamp, .number now)] }
  | .rewardAdded => do
    let grantedBy ← args.identity? .grantedBy
    let rewardId ← args.number? .rewardId
    let user ← args.identity? .user
    let amount ← args.number? .amount
    let rewardType ← args.word? limit? .rewardType
    let reason ← args.word? limit? .reason
    return {
      topic := .rewardAdded
      actor := grantedBy
      data := [.number rewardId, .number amount, .symbol rewardType, .symbol reason]
      metadata := [(.sender, .address grantedBy), (.recipient, .address user),
        (.amount, .number amount), (.reason, .symbol reason)]
      channel := [.topic .rewardAdded]
      payload := .struct .rewardAdded [(.rewardId, .number rewardId), (.user, .address user),
        (.amount, .number amount), (.rewardType, .symbol rewardType), (.reason, .symbol reason),
        (.grantedBy, .address grantedBy), (.timestamp, .number now)] }
  | .rewardClaimed => do
    let rewardId ← args.number? .rewardId
    let user ← args.identity? .user
    let amount ← args.number? .amount
    return {
      topic := .rewardClaimed
      actor := user
      data := [.number rewardId, .number amount]
      metadata := [(.recipient, .address user), (.amount, .number amount)]
      channel := [.topic .rewardClaimed]
      payload := .struct .rewardClaimed [(.rewardId, .number rewardId), (.user, .address user),
        (.amount, .number amount), (.timestamp, .number now)] }

end Operation

namespace Layout

/-- The value that a source stands for; a sum is exact. -/
def sourced (a : Assignment) : Source → Option Value
  | .field f => a f
  | .total f g =>
    match a f, a g with
    | some (.number m), some (.number n) => some (.number (m + n))
    | _, _ => none

theorem sourced_of_sourceValue {a : Assignment} {source : Source} {v : Option Value}
    (h : sourceValue a source = .ok v) : v = sourced a source := by
  cases source with
  | field f =>
    cases h
    rfl
  | total f g =>
    simp only [sourceValue] at h
    simp only [sourced]
    generalize a f = first at h ⊢
    generalize a g = second at h ⊢
    rcases first with _ | (_ | m | _ | _)
    case some.number =>
      rcases second with _ | (_ | n | _ | _)
      case some.number =>
        obtain ⟨total, added, rfl⟩ := eq_ok_of_map h
        cases (Admission.integer_eq_ok added).1
        rfl
      all_goals
        cases h
        rfl
    all_goals
      cases h
      rfl

/-- Metadata that was laid out holds, in the order of the layout, one value for each source that has
one. -/
theorem metadataOf_eq_ok {a : Assignment} {sources : List (MetadataKey × Source)} {m : Metadata}
    (h : metadataOf a sources = .ok m) :
    m = sources.filterMap fun e => (sourced a e.2).map fun v => (e.1, [v]) := by
  induction sources generalizing m with
  | nil =>
    cases h
    rfl
  | cons e r ih =>
    simp only [metadataOf] at h
    split at h
    · cases h
    · next left =>
      simp [← sourced_of_sourceValue left, ih h]
    · next v found =>
      obtain ⟨m', rest, rfl⟩ := eq_ok_of_map h
      simp [← sourced_of_sourceValue found, ih rest]

/-- A layout filled with the values of an assignment. -/
def row? (l : Layout) (a : Assignment) (now : Int) : Option Row := do
  let actor ← a.address? l.actor
  return {
    topic := l.topic
    actor
    data := l.data.filterMap a
    metadata := l.metadata.filterMap fun e => (sourced a e.2).map fun v => (e.1, v)
    channel := l.legacyChannel a
    payload := match l.legacy with
      | .single f => .value (((a f).map Value.toDatum).getD .null)
      | .row fs => .value (.tuple (fs.filterMap (rowValue a) ++ [.number now]))
      | .struct kind => .struct kind (kind.fields.map fun f => (f, a.structValue now f)) }

end Layout

namespace Operation

variable {op : Operation} {args : CallerArguments} {s : Surroundings} {e : Emission} {m : Metadata}
  {emitter : Address} {now : Int}

theorem Makes.describes (made : op.Makes args s e m emitter (.number now)) {kind : LegacyKind}
    (carried : op.layout.legacy = .struct kind) :
    (Row.Payload.struct kind (kind.fields.map fun f =>
      (f, (op.assignment s.symbolLimit? args).structValue now f))).Describes e.legacy.payload := by
  have filled (f : Field) (hf : f ∈ kind.fields) (timeless : f ≠ .timestamp) :
      ∃ v, op.assignment s.symbolLimit? args f = some v ∧ v.role = f.role := by
    obtain ⟨listed, needed⟩ := (needed_of_struct carried f hf).resolve_left timeless
    exact made.value_of_needed listed needed
  have role (f : Field) (hf : f ∈ kind.fields) :
      ((op.assignment s.symbolLimit? args).structValue now f).role = f.role := by
    by_cases time : f = .timestamp
    · subst time
      rfl
    · obtain ⟨v, present, role⟩ := filled f hf time
      simp [Assignment.structValue, time, present, role]
  have payload := made.payload
  rw [carried, Layout.legacyPayload, Layout.structFields_eq now fun f hf timeless =>
    (filled f hf timeless).imp fun _ h => h.1] at payload
  obtain ⟨held, read, carries⟩ := eq_ok_of_map payload
  obtain ⟨own, entries⟩ := LegacyKind.entries_of_read role read
  exact ⟨held, carries.symm, own, entries⟩

/-- The records that an operation makes are its layout, filled with the values of its
parameters. -/
theorem Makes.follows (made : op.Makes args s e m emitter (.number now)) {row : Row}
    (h : op.layout.row? (op.assignment s.symbolLimit? args) now = some row) :
    e.Follows row emitter now s.version := by
  obtain ⟨actor, acted, filled⟩ := Option.bind_eq_some_iff.mp h
  cases filled
  have coerced := made.time (by simp)
  constructor
  · rw [made.standard]
    rfl
  · rw [made.standard]
    rfl
  · rw [made.standard]
    simp [Draft.stamped, Draft.actorDatum, draft, acted]
  · rw [made.standard]
    rfl
  · rw [made.standard]
    simp [Draft.stamped, draft, Metadata.toEntries, Layout.metadataOf_eq_ok made.metadata,
      List.map_filterMap, Function.comp_def]
  · exact (Except.ok.inj coerced).symm
  · exact made.version
  · exact made.channel
  · have payload := made.payload
    cases carried : op.layout.legacy with
    | single f =>
      rw [carried] at payload
      exact (Except.ok.inj payload).symm
    | row fs =>
      rw [carried] at payload
      exact (Except.ok.inj payload).symm
    | struct kind => exact made.describes carried

/-- Whether a field is a parameter of this kind that may not be left out. -/
def asks (op : Operation) (r : Role) (f : Field) : Bool :=
  f.role = r && op.layout.params.contains f && !op.layout.optional.contains f

section Reads

variable {α : Type} (read : Field → Option α) (wrap : α → Value)

/-- The arguments of one kind, read in the way of the kind. -/
theorem Makes.reads (made : op.Makes args s e m emitter (.number now)) (r : Role) (absent : α)
    (same : ∀ f : Field, f.role = r →
      f.value? s.symbolLimit? (args f) = (read f).map wrap) :
    ∃ own : Field → α, ∀ f, op.asks r f = true →
      read f = some (own f) ∧ op.assignment s.symbolLimit? args f = some (wrap (own f)) := by
  refine ⟨fun f => (read f).getD absent, fun f asked => ?_⟩
  simp only [asks, Bool.and_eq_true, decide_eq_true_eq, List.contains_iff_mem,
    Bool.not_eq_true', ← Bool.not_eq_true] at asked
  obtain ⟨⟨role, listed⟩, required⟩ := asked
  obtain ⟨v, value, held⟩ := made.value_of_required listed required
  rw [same f role] at value
  obtain ⟨x, found, rfl⟩ := Option.map_eq_some_iff.mp value
  simp [found, held]

/-- An argument that may be left out, read in the way of its kind unless it was. -/
theorem Makes.reads_optional (made : op.Makes args s e m emitter (.number now)) (f : Field)
    (optional : f ∈ op.layout.optional) (listed : f ∈ op.layout.params)
    (same : f.value? s.symbolLimit? (args f) = (read f).map wrap) :
    ∃ own : Option α, args.ifGiven f read = some own ∧
      op.assignment s.symbolLimit? args f = (own.map wrap).or
        (if f ∈ op.layout.late then some Layout.placeholder else none) := by
  by_cases absent : args f = .null
  · refine ⟨none, by simp only [CallerArguments.ifGiven, absent], ?_⟩
    have left : op.layout.isAbsent args f = true := Layout.isAbsent_iff.mpr ⟨optional, absent⟩
    simp [assignment, listed, left]
  · have present : ¬op.layout.isAbsent args f = true := fun h =>
      absent (Layout.isAbsent_iff.mp h).2
    obtain ⟨v, value⟩ := (made.valued f listed).resolve_left present
    obtain ⟨x, found, rfl⟩ := Option.map_eq_some_iff.mp (same ▸ value)
    refine ⟨some x, ?_, ?_⟩
    · unfold CallerArguments.ifGiven
      split
      · next h => exact absurd h absent
      · rw [found]
        rfl
    · simp [assignment, listed, present, value]

end Reads

theorem Makes.reads_reason (made : op.Makes args s e m emitter (.number now)) :
    ∃ reason, op = .mint → args.ifGiven .reason (args.word? s.symbolLimit?) = some reason ∧
      op.assignment s.symbolLimit? args .reason = reason.map .symbol := by
  by_cases minted : op = .mint
  · subst minted
    obtain ⟨reason, given, held⟩ :=
      made.reads_optional (args.word? s.symbolLimit?) .symbol .reason (by decide) (by decide) rfl
    exact ⟨reason, fun _ => ⟨given, by simpa [layout] using held⟩⟩
  · exact ⟨none, fun h => absurd h minted⟩

theorem Makes.reads_tradeId (made : op.Makes args s e m emitter (.number now)) :
    ∃ tradeId, op = .tradeExecuted → args.ifGiven .tradeId args.number? = some tradeId ∧
      op.assignment s.symbolLimit? args .tradeId = some (.number (tradeId.getD 0)) := by
  by_cases traded : op = .tradeExecuted
  · subst traded
    obtain ⟨tradeId, given, held⟩ :=
      made.reads_optional args.number? .number .tradeId (by decide) (by decide) rfl
    refine ⟨tradeId, fun _ => ⟨given, held.trans ?_⟩⟩
    cases tradeId <;> rfl
  · exact ⟨none, fun h => absurd h traded⟩

/-- The layout of an operation, filled with the values of its parameters, is its row of the
table. -/
theorem Makes.row?_eq (made : op.Makes args s e m emitter (.number now)) :
    ∃ row, op.row? s.symbolLimit? args now = some row ∧
      op.layout.row? (op.assignment s.symbolLimit? args) now = some row := by
  obtain ⟨who, identity⟩ := made.reads args.identity? .address .identity ⟨""⟩
    fun f role => by simp only [Field.value?, role, CallerArguments.identity?]
  obtain ⟨amount, number⟩ := made.reads args.number? .number .number 0
    fun f role => by simp only [Field.value?, role, CallerArguments.number?]
  obtain ⟨whether, flag⟩ := made.reads args.flag? .flag .flag false
    fun f role => by simp only [Field.value?, role, CallerArguments.flag?]
  obtain ⟨text, word⟩ := made.reads (args.word? s.symbolLimit?) .symbol .text ⟨""⟩
    fun f role => by simp only [Field.value?, role, CallerArguments.word?]
  obtain ⟨reason, reasoned⟩ := made.reads_reason
  obtain ⟨tradeId, numbered⟩ := made.reads_tradeId
  generalize op.assignment s.symbolLimit? args = a at *
  -- with every parameter's value at hand, the table and the layout are filled alike
  cases op
  all_goals
    simp (disch := decide) only [row?, Layout.row?, layout, identity, number, flag, word, reasoned,
      numbered, Option.bind_eq_bind, Option.bind_some, pure, Option.some.injEq, exists_eq_left',
      Assignment.address?, List.filterMap_cons, List.filterMap_nil,
      Layout.sourced, Option.map_some, Layout.legacyChannel, Layout.rowValue, Value.toDatum,
      LegacyKind.fields, List.map_cons, List.map_nil, Assignment.structValue, Option.getD_some]
  case mint => cases reason <;> rfl
  all_goals rfl

end Operation

namespace Emitter

variable {σ : Type}

/-- What a call returns follows the table: it is the row of the operation for the arguments that
were given, stamped with the host's identity, the clock's reading and the version in force. -/
theorem perform_follows (em : Emitter) (t : Transport σ) (op : Operation) (args : CallerArguments)
    {w : World σ} {e : Emission} {now : Int}
    (clock : w.surroundings.clock w.surroundings.ticks = .value (.number now))
    (h : (em.perform t op args w).1 = .ok e) :
    ∃ row emitter, op.row? w.surroundings.symbolLimit? args now = some row ∧
      Admission.address w.surroundings.identity = .ok emitter ∧
      e.Follows row emitter now w.surroundings.version := by
  have built : (op.build args w.surroundings).1 = .ok e := by
    cases em.emits_perform t op args w with
    | rejected built ends => cases ends.reply.symm.trans h
    | refused built handed ends => cases ends.reply.symm.trans h
    | published built handed ends =>
      cases ends.reply.symm.trans h
      exact built
  obtain ⟨m, emitter, reading, made⟩ := Operation.build_makes (Prod.ext built rfl)
  cases made.reading.symm.trans clock
  obtain ⟨row, own, filled⟩ := made.row?_eq
  exact ⟨row, emitter, own, made.identified, made.follows filled⟩

end Emitter

/-- A trade without a number. -/
def CallerArguments.trade : CallerArguments
  | .trader => .address ⟨"alice"⟩
  | .pair => .plain "GOLD_USD"
  | .amount => .number 5
  | .price => .number 7
  | .isBuy => .flag true
  | .feeAmount => .number 1
  | .feeToken => .plain "token"
  | _ => .null

namespace Emitter

theorem perform_follows_trade :
    let em : Emitter := ⟨⟨"stellara_event"⟩, true⟩
    let w : World (List Publication) := ⟨.ledger, [], []⟩
    ∃ e row, (em.perform .keeping .tradeExecuted .trade w).1 = .ok e ∧
      e.Follows row ⟨"ledger"⟩ 1700000000 2 ∧
      row.data = [.symbol ⟨"GOLD_USD"⟩, .number 5, .number 7, .flag true, .number 1,
        .address ⟨"token"⟩] ∧
      ∃ entries, row.payload = .struct .tradeExecuted ((.tradeId, .number 0) :: entries) := by
  intro em w
  have clock : w.surroundings.clock w.surroundings.ticks = .value (.number 1700000000) := rfl
  obtain ⟨e, returned⟩ : ∃ e, (em.perform .keeping .tradeExecuted .trade w).1 = .ok e := ⟨_, rfl⟩
  obtain ⟨row, emitter, own, identified, follows⟩ :=
    em.perform_follows .keeping .tradeExecuted .trade clock returned
  cases identified
  cases own
  exact ⟨e, _, returned, follows, rfl, _, rfl⟩

end Emitter

end EventEnvelope
