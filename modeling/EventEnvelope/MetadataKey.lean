/-!
The closed vocabulary of metadata keys.
-/

namespace EventEnvelope

inductive MetadataKey
  | amount | sender | recipient | token | pair | price | fee | reason | proposalId | voteType
  | lockPeriod | rewardRate
deriving DecidableEq, Repr

namespace MetadataKey

def all : List MetadataKey :=
  [amount, sender, recipient, token, pair, price, fee, reason, proposalId, voteType, lockPeriod,
    rewardRate]

def id : MetadataKey → String
  | amount => "amount"
  | sender => "from"
  | recipient => "to"
  | token => "token"
  | pair => "pair"
  | price => "price"
  | fee => "fee"
  | reason => "reason"
  | proposalId => "proposal_id"
  | voteType => "vote_type"
  | lockPeriod => "lock_period"
  | rewardRate => "reward_rate"

def name : MetadataKey → String
  | amount => "AMOUNT"
  | sender => "FROM"
  | recipient => "TO"
  | token => "TOKEN"
  | pair => "PAIR"
  | price => "PRICE"
  | fee => "FEE"
  | reason => "REASON"
  | proposalId => "PROPOSAL_ID"
  | voteType => "VOTE_TYPE"
  | lockPeriod => "LOCK_PERIOD"
  | rewardRate => "REWARD_RATE"

def ofId? (s : String) : Option MetadataKey := all.find? fun k => k.id == s

theorem mem_all (k : MetadataKey) : k ∈ all := by cases k <;> decide

theorem ofId?_id (k : MetadataKey) : ofId? k.id = some k := by cases k <;> decide +kernel

end MetadataKey

end EventEnvelope
