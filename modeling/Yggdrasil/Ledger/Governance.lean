import Yggdrasil.Ledger.Registries
import Yggdrasil.Ledger.Transaction

/-!
# Governance actions

Proposals, votes and the actions that wait for ratification
(`state/governance_action_state.rs`, `eras/conway.rs`), and what a Conway transaction does to
them and to the activity of representatives (`state.rs`).  `Update` is the type of a change of
protocol parameters; the anchors of votes are left out, since nothing reads them.
-/

namespace Yggdrasil.Ledger

open Library

/-- A governance action: the transaction that proposed it and the place there. -/
structure GovActionId where
  transactionId : TxId
  govActionIndex : UInt16
deriving DecidableEq, Repr

inductive Vote where
  | no
  | yes
  | abstain
deriving DecidableEq, Repr

structure Constitution where
  anchor : Anchor
  guardrailsScriptHash : Option Hash28
deriving DecidableEq, Repr

/-- What a proposal asks for. -/
inductive GovAction (Update : Type) where
  | parameterChange (prevActionId : Option GovActionId) (protocolParamUpdate : Update)
      (guardrailsScriptHash : Option Hash28)
  | hardForkInitiation (prevActionId : Option GovActionId) (protocolVersion : UInt64 × UInt64)
  | treasuryWithdrawals (withdrawals : KeyedMap RewardAccount UInt64)
      (guardrailsScriptHash : Option Hash28)
  | noConfidence (prevActionId : Option GovActionId)
  | updateCommittee (prevActionId : Option GovActionId) (membersToRemove : List StakeCredential)
      (membersToAdd : KeyedMap StakeCredential UInt64) (quorum : UnitInterval)
  | newConstitution (prevActionId : Option GovActionId) (constitution : Constitution)
  | infoAction
deriving DecidableEq

structure ProposalProcedure (Update : Type) where
  deposit : UInt64
  /-- The account that gets the deposit back, as bytes. -/
  rewardAccount : Bytes
  govAction : GovAction Update
  anchor : Anchor
deriving DecidableEq

/-- A proposal that waits, with its votes. -/
structure GovernanceActionState (Update : Type) where
  proposal : ProposalProcedure Update
  votes : KeyedMap Voter Vote
  proposedIn : Option EpochNo
  /-- The last epoch in which it may be voted on. -/
  expiresAfter : Option EpochNo

/-- The actions that wait for ratification. -/
abbrev GovernanceActions (Update : Type) := KeyedMap GovActionId (GovernanceActionState Update)

/-- The votes of a transaction. -/
abbrev VotingProcedures := KeyedMap Voter (KeyedMap GovActionId Vote)

def conwayBootstrapPhase (protocolVersion : Option (UInt64 × UInt64)) : Bool :=
  protocolVersion.any fun version => version.1 = 9

def conwayPostPv10 (protocolVersion : Option (UInt64 × UInt64)) : Bool :=
  protocolVersion.any fun version => 10 < version.1

section

variable {Update : Type}

/-- The state of a proposal that has just been submitted. -/
def GovernanceActionState.newWithLifetime (proposal : ProposalProcedure Update)
    (proposedIn : EpochNo) (govActionLifetime : Option UInt64) : GovernanceActionState Update where
  proposal := proposal
  votes := ∅
  proposedIn := some proposedIn
  expiresAfter := govActionLifetime.map fun lifetime => saturatingAdd proposedIn lifetime

/-- A pending proposal would seat the credential. -/
def isPotentialFutureMember (coldCredential : StakeCredential)
    (actions : GovernanceActions Update) : Bool :=
  actions.entries.any fun entry =>
    match entry.2.proposal.govAction with
    | .updateCommittee _ _ membersToAdd _ => (membersToAdd.lookup coldCredential).isSome
    | _ => false

/-- The representative behind a voter. -/
def voterToDrep : Voter → Option DRep
  | .drepKeyHash hash => some (.keyHash hash)
  | .drepScript hash => some (.scriptHash hash)
  | _ => none

/-- The epoch that counts as the last activity of a representative who acts now. -/
def activityEpoch (currentEpoch : EpochNo) (numDormantEpochs : UInt64) (bootstrapPhase : Bool) :
    EpochNo :=
  saturatingSub currentEpoch (if bootstrapPhase then 0 else numDormantEpochs)

def touchActivity (epoch : EpochNo) (drep : RegisteredDrep) : RegisteredDrep :=
  { drep with lastActiveEpoch := some epoch }

def recordVotes (voting : VotingProcedures) (actions : GovernanceActions Update) :
    GovernanceActions Update :=
  voting.entries.foldl (fun actions ballot =>
    ballot.2.entries.foldl (fun actions vote =>
      KeyedMap.modify vote.1 (fun state =>
        { state with votes := state.votes.insert ballot.1 vote.2 }) actions) actions) actions

/-- Representatives who vote are active. -/
def touchVotingDreps (voting : VotingProcedures) (epoch : EpochNo) (dreps : DrepState) :
    DrepState :=
  (voting.entries.filterMap fun ballot => voterToDrep ballot.1).foldl
    (fun dreps drep => KeyedMap.modify drep (touchActivity epoch) dreps) dreps

/-- Forget the votes of representatives who leave. -/
def removeConwayDrepVotes (voters : List Voter) (actions : GovernanceActions Update) :
    GovernanceActions Update :=
  KeyedMap.mapValues (fun state =>
    { state with votes := KeyedMap.keep (fun voter _ => voter ∉ voters) state.votes }) actions

/-- Add the dormant epochs to the last activity of everyone who is not lapsed, when a
transaction has proposals. -/
def updateDormantDrepExpiries (hasProposals : Bool) (currentEpoch : EpochNo)
    (drepActivity : UInt64) (dreps : DrepState) (numDormant : UInt64) : DrepState × UInt64 :=
  if !hasProposals || numDormant = 0 then (dreps, numDormant)
  else
    (KeyedMap.mapValues (fun drep =>
      match drep.lastActiveEpoch with
      | none => drep
      | some lastActive =>
        if currentEpoch ≤ saturatingAdd (saturatingAdd lastActive drepActivity) numDormant then
          touchActivity (saturatingAdd lastActive numDormant) drep
        else drep) dreps, 0)

/-- Stage the proposals of a transaction one after the other, each after its check. -/
def stageProposals (check : GovernanceActions Update → Nat → ProposalProcedure Update → Result Unit)
    (txId : TxId) (currentEpoch : EpochNo) (govActionLifetime : Option UInt64)
    (actions : GovernanceActions Update) (proposals : List (ProposalProcedure Update)) :
    Result (GovernanceActions Update) :=
  proposals.zipIdx.foldlM (fun actions proposal => do
    check actions proposal.2 proposal.1
    return actions.insert ⟨txId, .ofNat proposal.2⟩
      (.newWithLifetime proposal.1 currentEpoch govActionLifetime)) actions

end

end Yggdrasil.Ledger
