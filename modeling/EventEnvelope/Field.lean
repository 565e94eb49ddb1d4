import EventEnvelope.Value

/-!
The vocabulary of business fields: the arguments of the operations and the fields of the older
structured payloads share these names, so a name says which kind of value it stands for.
-/

namespace EventEnvelope

inductive Role
  | identity | number | text | flag
deriving DecidableEq, Repr

inductive Field
  | sender | destination | owner | spender | token | user | admin | voter | proposer | executor
  | approver | rejector | cancelledBy | targetContract | oldAdmin | newAdmin | pausedBy
  | unpausedBy | trader | feeToken | payer | recipient | grantedBy
  | amount | lockPeriod | rewards | fee | baseRewards | bonusRewards | rewardRate
  | bonusMultiplier | proposalId | votingPower | currentApprovals | threshold
  | approvalThreshold | timelockDelay | price | feeAmount | tradeId | rewardId | timestamp
  | reason | voteType | title | proposalType | newContractHash | description | pair | rewardType
  | success | authorized | isBuy
deriving DecidableEq, Repr

namespace Field

def name : Field → String
  | sender => "from_"
  | destination => "to"
  | owner => "owner"
  | spender => "spender"
  | token => "token"
  | user => "user"
  | admin => "admin"
  | voter => "voter"
  | proposer => "proposer"
  | executor => "executor"
  | approver => "approver"
  | rejector => "rejector"
  | cancelledBy => "cancelled_by"
  | targetContract => "target_contract"
  | oldAdmin => "old_admin"
  | newAdmin => "new_admin"
  | pausedBy => "paused_by"
  | unpausedBy => "unpaused_by"
  | trader => "trader"
  | feeToken => "fee_token"
  | payer => "payer"
  | recipient => "recipient"
  | grantedBy => "granted_by"
  | amount => "amount"
  | lockPeriod => "lock_period"
  | rewards => "rewards"
  | fee => "fee"
  | baseRewards => "base_rewards"
  | bonusRewards => "bonus_rewards"
  | rewardRate => "reward_rate"
  | bonusMultiplier => "bonus_multiplier"
  | proposalId => "proposal_id"
  | votingPower => "voting_power"
  | currentApprovals => "current_approvals"
  | threshold => "threshold"
  | approvalThreshold => "approval_threshold"
  | timelockDelay => "timelock_delay"
  | price => "price"
  | feeAmount => "fee_amount"
  | tradeId => "trade_id"
  | rewardId => "reward_id"
  | timestamp => "timestamp"
  | reason => "reason"
  | voteType => "vote_type"
  | title => "title"
  | proposalType => "proposal_type"
  | newContractHash => "new_contract_hash"
  | description => "description"
  | pair => "pair"
  | rewardType => "reward_type"
  | success => "success"
  | authorized => "authorized"
  | isBuy => "is_buy"

def role : Field → Role
  | reason | voteType | title | proposalType | newContractHash | description | pair
  | rewardType => .text
  | success | authorized | isBuy => .flag
  | amount | lockPeriod | rewards | fee | baseRewards | bonusRewards | rewardRate
  | bonusMultiplier | proposalId | votingPower | currentApprovals | threshold
  | approvalThreshold | timelockDelay | price | feeAmount | tradeId | rewardId
  | timestamp => .number
  | _ => .identity

/-- Fields that count or identify: a structured payload refuses a negative one. -/
def isCount : Field → Bool
  | tradeId | proposalId | approvalThreshold | timelockDelay | currentApprovals | threshold
  | rewardId | timestamp => true
  | _ => false

/-- A value of the field's kind, not negative where the field counts. -/
def fits (f : Field) : Value → Bool
  | .flag _ => f.role = .flag
  | .number n => f.role = .number && (!f.isCount || 0 ≤ n)
  | .symbol _ => f.role = .text
  | .address _ => f.role = .identity

/-- Values in the order of their fields, each fitting its own. -/
def fitsAll : List Field → List Value → Bool
  | [], [] => true
  | f :: fs, v :: vs => f.fits v && fitsAll fs vs
  | _, _ => false

theorem length_of_fitsAll {fs : List Field} {vs : List Value} (h : fitsAll fs vs = true) :
    vs.length = fs.length := by
  induction fs generalizing vs with
  | nil => cases vs <;> simp_all [fitsAll]
  | cons f fs ih =>
    cases vs with
    | nil => simp [fitsAll] at h
    | cons v vs =>
      simp only [fitsAll, Bool.and_eq_true] at h
      simp [ih h.2]

end Field

end EventEnvelope
