import EventEnvelope.Draft

/-!
The business operations and how each is laid out in its two records. The order of data fields is
part of the contract with consumers, who read them by position.
-/

namespace EventEnvelope

inductive Operation
  | transfer | approve | mint | burn
  | stake | unstake | rewardsClaimed | poolUpdated
  | vote | proposalCreated | proposalExecuted | proposalApproved | proposalRejected
  | proposalCancelled
  | upgradeProposed | upgradeExecuted
  | adminChanged | authorizationChanged | contractPaused | contractUnpaused
  | tradeExecuted | feeCollected
  | rewardAdded | rewardClaimed
deriving DecidableEq, Repr

inductive Source
  | field (f : Field)
  | total (f g : Field)
deriving DecidableEq, Repr

/-- What the older record carries: one value, values followed by the clock reading, or a struct
whose fields are filled by name. -/
inductive LegacyPayload
  | single (f : Field)
  | row (fs : List Field)
  | struct (kind : LegacyKind)
deriving DecidableEq, Repr

structure Layout where
  topic : Topic
  params : List Field
  /-- Parameters that may be left out. -/
  optional : List Field := []
  /-- Parameters checked before the clock is read, in this order: identities, then numbers and
  flags, then texts, unless the layout says otherwise. -/
  checks : List Field :=
    params.filter (·.role = .identity)
      ++ params.filter (fun f => f.role = .number || f.role = .flag)
      ++ params.filter (·.role = .text)
  /-- Parameters settled after the clock was read. One left out takes its placeholder. -/
  late : List Field := []
  actor : Field
  data : List Field
  metadata : List (MetadataKey × Source)
  legacyTopic : Topic := topic
  legacyKeys : List Field := []
  legacy : LegacyPayload

namespace Operation

def all : List Operation :=
  [transfer, approve, mint, burn, stake, unstake, rewardsClaimed, poolUpdated, vote,
    proposalCreated, proposalExecuted, proposalApproved, proposalRejected, proposalCancelled,
    upgradeProposed, upgradeExecuted, adminChanged, authorizationChanged, contractPaused,
    contractUnpaused, tradeExecuted, feeCollected, rewardAdded, rewardClaimed]

def name : Operation → String
  | transfer => "transfer"
  | approve => "approve"
  | mint => "mint"
  | burn => "burn"
  | stake => "stake"
  | unstake => "unstake"
  | rewardsClaimed => "rewards_claimed"
  | poolUpdated => "pool_updated"
  | vote => "vote"
  | proposalCreated => "proposal_created"
  | proposalExecuted => "proposal_executed"
  | proposalApproved => "proposal_approved"
  | proposalRejected => "proposal_rejected"
  | proposalCancelled => "proposal_cancelled"
  | upgradeProposed => "upgrade_proposed"
  | upgradeExecuted => "upgrade_executed"
  | adminChanged => "admin_changed"
  | authorizationChanged => "authorization_changed"
  | contractPaused => "contract_paused"
  | contractUnpaused => "contract_unpaused"
  | tradeExecuted => "trade_executed"
  | feeCollected => "fee_collected"
  | rewardAdded => "reward_added"
  | rewardClaimed => "reward_claimed"

def ofName? (s : String) : Option Operation := all.find? fun op => op.name == s

def layout : Operation → Layout
  | transfer => {
      topic := .transfer
      params := [.sender, .destination, .amount, .token]
      actor := .sender
      data := [.amount, .token]
      metadata := [(.sender, .field .sender), (.recipient, .field .destination),
        (.amount, .field .amount), (.token, .field .token)]
      legacyKeys := [.sender, .destination]
      legacy := .single .amount }
  | approve => {
      topic := .approve
      params := [.owner, .spender, .amount, .token]
      actor := .owner
      data := [.amount, .token]
      metadata := [(.sender, .field .owner), (.recipient, .field .spender),
        (.amount, .field .amount), (.token, .field .token)]
      legacyKeys := [.owner, .spender]
      legacy := .single .amount }
  | mint => {
      topic := .mint
      params := [.destination, .amount, .token, .reason]
      optional := [.reason]
      actor := .destination
      data := [.amount, .token, .reason]
      metadata := [(.recipient, .field .destination), (.amount, .field .amount),
        (.token, .field .token), (.reason, .field .reason)]
      legacyKeys := [.destination]
      legacy := .single .amount }
  | burn => {
      topic := .burn
      params := [.sender, .amount, .token]
      actor := .sender
      data := [.amount, .token]
      metadata := [(.sender, .field .sender), (.amount, .field .amount), (.token, .field .token)]
      legacyKeys := [.sender]
      legacy := .single .amount }
  | stake => {
      topic := .stake
      params := [.user, .amount, .lockPeriod, .token]
      actor := .user
      data := [.amount, .lockPeriod, .token]
      metadata := [(.amount, .field .amount), (.lockPeriod, .field .lockPeriod),
        (.token, .field .token)]
      legacyKeys := [.user]
      legacy := .row [.amount, .lockPeriod] }
  | unstake => {
      topic := .unstake
      params := [.user, .amount, .rewards, .fee, .token]
      actor := .user
      data := [.amount, .rewards, .fee, .token]
      metadata := [(.amount, .field .amount), (.fee, .field .fee), (.token, .field .token)]
      legacyKeys := [.user]
      legacy := .row [.amount, .rewards, .fee] }
  | rewardsClaimed => {
      topic := .rewardsClaimed
      params := [.user, .baseRewards, .bonusRewards, .token]
      actor := .user
      data := [.baseRewards, .bonusRewards, .token]
      metadata := [(.amount, .total .baseRewards .bonusRewards), (.token, .field .token)]
      legacyKeys := [.user]
      legacy := .row [.baseRewards, .bonusRewards] }
  | poolUpdated => {
      topic := .poolUpdated
      params := [.admin, .rewardRate, .bonusMultiplier]
      actor := .admin
      data := [.rewardRate, .bonusMultiplier]
      metadata := [(.rewardRate, .field .rewardRate)]
      legacyKeys := [.admin]
      legacy := .row [.rewardRate, .bonusMultiplier] }
  | vote => {
      topic := .vote
      params := [.voter, .proposalId, .voteType, .votingPower]
      actor := .voter
      data := [.proposalId, .voteType, .votingPower]
      metadata := [(.proposalId, .field .proposalId), (.voteType, .field .voteType)]
      legacyKeys := [.voter]
      legacy := .row [.proposalId, .voteType, .votingPower] }
  | proposalCreated => {
      topic := .proposalCreated
      params := [.proposer, .proposalId, .title, .proposalType]
      actor := .proposer
      data := [.proposalId, .title, .proposalType]
      metadata := [(.proposalId, .field .proposalId)]
      legacyKeys := [.proposer]
      legacy := .row [.proposalId, .title, .proposalType] }
  | proposalExecuted => {
      topic := .proposalExecuted
      params := [.executor, .proposalId, .success]
      actor := .executor
      data := [.proposalId, .success]
      metadata := [(.proposalId, .field .proposalId)]
      legacyKeys := [.executor]
      legacy := .row [.proposalId, .success] }
  | proposalApproved => {
      topic := .proposalApproved
      params := [.approver, .proposalId, .currentApprovals, .threshold]
      actor := .approver
      data := [.proposalId, .currentApprovals, .threshold]
      metadata := [(.proposalId, .field .proposalId)]
      legacy := .struct .proposalApproved }
  | proposalRejected => {
      topic := .proposalRejected
      params := [.rejector, .proposalId]
      actor := .rejector
      data := [.proposalId]
      metadata := [(.proposalId, .field .proposalId)]
      legacy := .struct .proposalRejected }
  | proposalCancelled => {
      topic := .proposalCancelled
      params := [.cancelledBy, .proposalId]
      actor := .cancelledBy
      data := [.proposalId]
      metadata := [(.proposalId, .field .proposalId)]
      legacy := .struct .proposalCancelled }
  | upgradeProposed => {
      topic := .upgradeProposed
      params := [.proposer, .proposalId, .newContractHash, .targetContract, .description,
        .approvalThreshold, .timelockDelay]
      actor := .proposer
      data := [.proposalId, .newContractHash, .targetContract, .description, .approvalThreshold,
        .timelockDelay]
      metadata := [(.proposalId, .field .proposalId), (.recipient, .field .targetContract)]
      legacyTopic := .proposalCreated
      legacy := .struct .proposalCreated }
  | upgradeExecuted => {
      topic := .upgradeExecuted
      params := [.executor, .proposalId, .newContractHash]
      actor := .executor
      data := [.proposalId, .newContractHash]
      metadata := [(.proposalId, .field .proposalId)]
      legacyTopic := .proposalExecuted
      legacy := .struct .proposalExecuted }
  | adminChanged => {
      topic := .adminChanged
      params := [.oldAdmin, .newAdmin]
      actor := .oldAdmin
      data := [.oldAdmin, .newAdmin]
      metadata := [(.sender, .field .oldAdmin), (.recipient, .field .newAdmin)]
      legacyKeys := [.oldAdmin]
      legacy := .single .newAdmin }
  | authorizationChanged => {
      topic := .authorizationChanged
      params := [.user, .authorized]
      checks := [.authorized, .user]
      actor := .user
      data := [.authorized]
      metadata := [(.recipient, .field .user)]
      legacyKeys := [.user]
      legacy := .single .authorized }
  | contractPaused => {
      topic := .contractPaused
      params := [.pausedBy]
      actor := .pausedBy
      data := [.pausedBy]
      metadata := [(.sender, .field .pausedBy)]
      legacy := .struct .contractPaused }
  | contractUnpaused => {
      topic := .contractUnpaused
      params := [.unpausedBy]
      actor := .unpausedBy
      data := [.unpausedBy]
      metadata := [(.sender, .field .unpausedBy)]
      legacy := .struct .contractUnpaused }
  | tradeExecuted => {
      topic := .tradeExecuted
      params := [.trader, .pair, .amount, .price, .isBuy, .feeAmount, .feeToken, .tradeId]
      optional := [.tradeId]
      checks := [.trader, .feeToken, .pair, .amount, .price, .feeAmount, .isBuy]
      late := [.tradeId]
      actor := .trader
      data := [.pair, .amount, .price, .isBuy, .feeAmount, .feeToken]
      metadata := [(.pair, .field .pair), (.amount, .field .amount), (.price, .field .price),
        (.fee, .field .feeAmount), (.token, .field .feeToken)]
      legacy := .struct .tradeExecuted }
  | feeCollected => {
      topic := .feeCollected
      params := [.payer, .recipient, .amount, .token]
      actor := .payer
      data := [.amount, .token]
      metadata := [(.sender, .field .payer), (.recipient, .field .recipient),
        (.amount, .field .amount), (.token, .field .token)]
      legacy := .struct .feeCollected }
  | rewardAdded => {
      topic := .rewardAdded
      params := [.grantedBy, .rewardId, .user, .amount, .rewardType, .reason]
      actor := .grantedBy
      data := [.rewardId, .amount, .rewardType, .reason]
      metadata := [(.sender, .field .grantedBy), (.recipient, .field .user),
        (.amount, .field .amount), (.reason, .field .reason)]
      legacy := .struct .rewardAdded }
  | rewardClaimed => {
      topic := .rewardClaimed
      params := [.rewardId, .user, .amount]
      actor := .user
      data := [.rewardId, .amount]
      metadata := [(.recipient, .field .user), (.amount, .field .amount)]
      legacy := .struct .rewardClaimed }

def topic (op : Operation) : Topic := op.layout.topic

theorem mem_all (op : Operation) : op ∈ all := by cases op <;> decide

end Operation

end EventEnvelope
