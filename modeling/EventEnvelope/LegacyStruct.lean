import EventEnvelope.Field

/-!
The structured payloads that predate the envelope. Field names and their order are frozen, since
older consumers parse them. A struct holds values that fit its fields, whatever built it.
-/

namespace EventEnvelope

inductive LegacyKind
  | tradeExecuted | contractPaused | contractUnpaused | feeCollected
  | proposalCreated | proposalApproved | proposalRejected | proposalExecuted | proposalCancelled
  | rewardAdded | rewardClaimed
deriving DecidableEq, Repr

namespace LegacyKind

def all : List LegacyKind :=
  [tradeExecuted, contractPaused, contractUnpaused, feeCollected, proposalCreated,
    proposalApproved, proposalRejected, proposalExecuted, proposalCancelled, rewardAdded,
    rewardClaimed]

def name : LegacyKind → String
  | tradeExecuted => "TradeExecutedEvent"
  | contractPaused => "ContractPausedEvent"
  | contractUnpaused => "ContractUnpausedEvent"
  | feeCollected => "FeeCollectedEvent"
  | proposalCreated => "ProposalCreatedEvent"
  | proposalApproved => "ProposalApprovedEvent"
  | proposalRejected => "ProposalRejectedEvent"
  | proposalExecuted => "ProposalExecutedEvent"
  | proposalCancelled => "ProposalCancelledEvent"
  | rewardAdded => "RewardAddedEvent"
  | rewardClaimed => "RewardClaimedEvent"

def fields : LegacyKind → List Field
  | tradeExecuted => [.tradeId, .trader, .pair, .amount, .price, .isBuy, .feeAmount, .feeToken,
      .timestamp]
  | contractPaused => [.pausedBy, .timestamp]
  | contractUnpaused => [.unpausedBy, .timestamp]
  | feeCollected => [.payer, .recipient, .amount, .token, .timestamp]
  | proposalCreated => [.proposalId, .proposer, .newContractHash, .targetContract, .description,
      .approvalThreshold, .timelockDelay, .timestamp]
  | proposalApproved => [.proposalId, .approver, .currentApprovals, .threshold, .timestamp]
  | proposalRejected => [.proposalId, .rejector, .timestamp]
  | proposalExecuted => [.proposalId, .executor, .newContractHash, .timestamp]
  | proposalCancelled => [.proposalId, .cancelledBy, .timestamp]
  | rewardAdded => [.rewardId, .user, .amount, .rewardType, .reason, .grantedBy, .timestamp]
  | rewardClaimed => [.rewardId, .user, .amount, .timestamp]

/-- The value that stands for a field left out; only a trade may come without its number. -/
def default? : Field → Option Value
  | .tradeId => some (.number 0)
  | _ => none

def ofName? (s : String) : Option LegacyKind := all.find? fun k => k.name == s

theorem mem_all (k : LegacyKind) : k ∈ all := by cases k <;> decide

theorem ofName?_name (k : LegacyKind) : ofName? k.name = some k := by cases k <;> decide +kernel

end LegacyKind

structure LegacyStruct where
  kind : LegacyKind
  values : List Value
  fits : Field.fitsAll kind.fields values = true
deriving DecidableEq

namespace LegacyStruct

def entries (s : LegacyStruct) : List (Field × Value) := s.kind.fields.zip s.values

def get? (s : LegacyStruct) (f : Field) : Option Value :=
  (s.entries.find? fun e => e.1 = f).map (·.2)

def ofValues? (kind : LegacyKind) (values : List Value) : Option LegacyStruct :=
  if h : Field.fitsAll kind.fields values = true then some ⟨kind, values, h⟩ else none

end LegacyStruct

end EventEnvelope
