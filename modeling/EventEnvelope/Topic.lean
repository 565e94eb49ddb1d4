import EventEnvelope.Text.Classes

/-!
The registry of topics: each published event type with its wire identifier, its semantic name and
its business domain. Identifiers are fixed for good, and no identifier is another topic's name.
-/

namespace EventEnvelope

inductive TopicGroup
  | coreToken | trading | staking | governance | admin | oracle | upgrade | socialRewards
deriving DecidableEq, Repr

namespace TopicGroup

def all : List TopicGroup :=
  [coreToken, trading, staking, governance, admin, oracle, upgrade, socialRewards]

def id : TopicGroup → String
  | coreToken => "core_token"
  | trading => "trading"
  | staking => "staking"
  | governance => "governance"
  | admin => "admin"
  | oracle => "oracle"
  | upgrade => "upgrade"
  | socialRewards => "social_rewards"

def name : TopicGroup → String
  | coreToken => "CORE_TOKEN"
  | trading => "TRADING"
  | staking => "STAKING"
  | governance => "GOVERNANCE"
  | admin => "ADMIN"
  | oracle => "ORACLE"
  | upgrade => "UPGRADE"
  | socialRewards => "SOCIAL_REWARDS"

def ofId? (s : String) : Option TopicGroup := all.find? fun g => g.id == s

end TopicGroup

inductive Topic
  | transfer | approve | mint | burn
  | tradeExecuted | contractPaused | contractUnpaused | feeCollected
  | stake | unstake | rewardsClaimed | poolUpdated
  | proposalCreated | proposalApproved | proposalRejected | proposalExecuted | proposalCancelled
  | vote
  | adminChanged | authorizationChanged | emergencyMode
  | oracleUpdated
  | upgradeProposed | upgradeExecuted
  | rewardAdded | rewardClaimed
deriving DecidableEq, Repr

namespace Topic

def all : List Topic :=
  [transfer, approve, mint, burn, tradeExecuted, contractPaused, contractUnpaused, feeCollected,
    stake, unstake, rewardsClaimed, poolUpdated, proposalCreated, proposalApproved,
    proposalRejected, proposalExecuted, proposalCancelled, vote, adminChanged,
    authorizationChanged, emergencyMode, oracleUpdated, upgradeProposed, upgradeExecuted,
    rewardAdded, rewardClaimed]

/-- The short identifier on the wire. -/
def id : Topic → String
  | transfer => "transfer"
  | approve => "approve"
  | mint => "mint"
  | burn => "burn"
  | tradeExecuted => "trade"
  | contractPaused => "paused"
  | contractUnpaused => "unpause"
  | feeCollected => "fee"
  | stake => "stake"
  | unstake => "unstake"
  | rewardsClaimed => "rewards_claimed"
  | poolUpdated => "pool_updated"
  | proposalCreated => "propose"
  | proposalApproved => "prop_approve"
  | proposalRejected => "reject"
  | proposalExecuted => "execute"
  | proposalCancelled => "cancel"
  | vote => "vote"
  | adminChanged => "admin_changed"
  | authorizationChanged => "auth_changed"
  | emergencyMode => "emergency_mode"
  | oracleUpdated => "oracle_updated"
  | upgradeProposed => "upgrade_proposed"
  | upgradeExecuted => "upgrade_executed"
  | rewardAdded => "reward"
  | rewardClaimed => "claimed"

def name : Topic → String
  | transfer => "TRANSFER"
  | approve => "APPROVE"
  | mint => "MINT"
  | burn => "BURN"
  | tradeExecuted => "TRADE_EXECUTED"
  | contractPaused => "CONTRACT_PAUSED"
  | contractUnpaused => "CONTRACT_UNPAUSED"
  | feeCollected => "FEE_COLLECTED"
  | stake => "STAKE"
  | unstake => "UNSTAKE"
  | rewardsClaimed => "REWARDS_CLAIMED"
  | poolUpdated => "POOL_UPDATED"
  | proposalCreated => "PROPOSAL_CREATED"
  | proposalApproved => "PROPOSAL_APPROVED"
  | proposalRejected => "PROPOSAL_REJECTED"
  | proposalExecuted => "PROPOSAL_EXECUTED"
  | proposalCancelled => "PROPOSAL_CANCELLED"
  | vote => "VOTE"
  | adminChanged => "ADMIN_CHANGED"
  | authorizationChanged => "AUTHORIZATION_CHANGED"
  | emergencyMode => "EMERGENCY_MODE"
  | oracleUpdated => "ORACLE_UPDATED"
  | upgradeProposed => "UPGRADE_PROPOSED"
  | upgradeExecuted => "UPGRADE_EXECUTED"
  | rewardAdded => "REWARD_ADDED"
  | rewardClaimed => "REWARD_CLAIMED"

def group : Topic → TopicGroup
  | transfer | approve | mint | burn => .coreToken
  | tradeExecuted | contractPaused | contractUnpaused | feeCollected => .trading
  | stake | unstake | rewardsClaimed | poolUpdated => .staking
  | proposalCreated | proposalApproved | proposalRejected | proposalExecuted | proposalCancelled
  | vote => .governance
  | adminChanged | authorizationChanged | emergencyMode => .admin
  | oracleUpdated => .oracle
  | upgradeProposed | upgradeExecuted => .upgrade
  | rewardAdded | rewardClaimed => .socialRewards

def ofId? (s : String) : Option Topic := all.find? fun t => t.id == s

def ofName? (s : String) : Option Topic := all.find? fun t => t.name == s

/-- The topic that a text names: by identifier, else by semantic name in any letter case. -/
def resolve? (s : String) : Option Topic :=
  match ofId? s with
  | some t => some t
  | none => (Text.upper? s.toList).bind fun cs => ofName? (String.ofList cs)

def inGroup (g : TopicGroup) : List Topic := all.filter fun t => t.group = g

theorem mem_all (t : Topic) : t ∈ all := by cases t <;> decide

theorem ofId?_id (t : Topic) : ofId? t.id = some t := by cases t <;> decide +kernel

theorem id_injective {t t' : Topic} (h : t.id = t'.id) : t = t' := by
  have found := ofId?_id t
  rw [h, ofId?_id] at found
  exact (Option.some.inj found).symm

theorem id_inj {t t' : Topic} : t.id = t'.id ↔ t = t' := ⟨id_injective, congrArg id⟩

end Topic

end EventEnvelope
