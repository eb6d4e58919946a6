import Yggdrasil.Ledger.ParameterUpdates
import Yggdrasil.Ledger.StakeSnapshots

/-!
# Ratification and enactment

The votes on a governance action against the thresholds of its kind (`state/ratify.rs`), and what
an action does once it is accepted (`state/enact.rs`).
-/

namespace Yggdrasil.Ledger

open Library

abbrev Action := GovAction ProtocolParameterUpdate
abbrev ActionState := GovernanceActionState ProtocolParameterUpdate

/-! ## Tallies -/

/-- The votes of one kind of voters. -/
structure VoteTally where
  yes : UInt64
  no : UInt64
  abstain : UInt64
  total : UInt64
deriving DecidableEq, Repr

namespace VoteTally

def empty : VoteTally := ⟨0, 0, 0, 0⟩

/-- The share of those who do not abstain reaches the threshold. -/
def meetsThreshold (tally : VoteTally) (threshold : UnitInterval) : Bool :=
  let active := saturatingSub tally.total tally.abstain
  if active = 0 then threshold.numerator = 0
  else threshold.numerator.toNat * active.toNat ≤ tally.yes.toNat * threshold.denominator.toNat

def addVote (weight : UInt64) (vote : Option Vote) (tally : VoteTally) : VoteTally :=
  match vote with
  | some .yes => { tally with yes := saturatingAdd tally.yes weight }
  | some .no => { tally with no := saturatingAdd tally.no weight }
  | some .abstain => { tally with abstain := saturatingAdd tally.abstain weight }
  | none => tally

def addTotal (weight : UInt64) (tally : VoteTally) : VoteTally :=
  { tally with total := saturatingAdd tally.total weight }

end VoteTally

/-- A member whose seat counts. -/
def CommitteeMemberState.isActive (currentEpoch : EpochNo) (member : CommitteeMemberState) : Bool :=
  member.isEnactedMember && !member.isResigned && !member.isExpired currentEpoch

def countActiveCommitteeMembers (committee : CommitteeState) (currentEpoch : EpochNo) : UInt64 :=
  .ofNat (committee.entries.countP fun entry => entry.2.isActive currentEpoch)

/-- A committee member votes with the hot credential. -/
def hotVoter : StakeCredential → Voter
  | .addrKeyHash hash => .committeeKeyHash hash
  | .scriptHash hash => .committeeScript hash

variable (context : RatifyContext) (action : ActionState)

/-- One vote for each active member. -/
def tallyCommitteeVotes (committee : CommitteeState) (currentEpoch : EpochNo) : VoteTally :=
  (committee.entries.filter fun entry => entry.2.isActive currentEpoch).foldl
    (fun tally entry =>
      (tally.addTotal 1).addVote 1
        ((entry.2.hotCredential.map hotVoter).bind action.votes.lookup)) VoteTally.empty

/-- The voter behind a representative with credentials. -/
def drepVoter : DRep → Option Voter
  | .keyHash hash => some (.drepKeyHash hash)
  | .scriptHash hash => some (.drepScript hash)
  | .alwaysAbstain | .alwaysNoConfidence => none

/-- Votes by stake; representatives who are not registered or not active do not count. -/
def tallyDrepVotes (dreps : DrepState) (delegated : KeyedMap DRep UInt64) (currentEpoch : EpochNo)
    (drepActivity : UInt64) (countNoConfidenceAsYes : Bool) : VoteTally :=
  delegated.entries.foldl (fun tally entry =>
    match entry.1 with
    | .alwaysAbstain => tally
    | .alwaysNoConfidence =>
      (tally.addTotal entry.2).addVote entry.2
        (if countNoConfidenceAsYes then some .yes else none)
    | drep =>
      match dreps.lookup drep with
      | none => tally
      | some registered =>
        if registered.lastActiveEpoch.any fun last =>
            saturatingAdd last drepActivity < currentEpoch then tally
        else
          (tally.addTotal entry.2).addVote entry.2
            ((drepVoter drep).bind action.votes.lookup)) VoteTally.empty

/-- The vote of a pool that says nothing. -/
inductive DefaultVote where
  | no
  | abstain
  | noConfidence
deriving DecidableEq, Repr

def defaultStakePoolVote (pool : PoolKeyHash) (pools : PoolState)
    (credentials : StakeCredentials) : DefaultVote :=
  match ((pools.entries.lookup pool).bind fun registered =>
      credentials.lookup registered.params.rewardAccount.credential).bind (·.delegatedDrep) with
  | some .alwaysAbstain => .abstain
  | some .alwaysNoConfidence => .noConfidence
  | _ => .no

/-- The vote that counts for a pool. -/
def poolVote (isBootstrapPhase : Bool) (pools : PoolState) (credentials : StakeCredentials)
    (pool : PoolKeyHash) : Option Vote :=
  match action.votes.lookup (.stakePool pool) with
  | some vote => some vote
  | none =>
    match action.proposal.govAction with
    | .hardForkInitiation .. => none
    | govAction =>
      if isBootstrapPhase then some .abstain
      else
        match defaultStakePoolVote pool pools credentials with
        | .abstain => some .abstain
        | .noConfidence =>
          match govAction with
          | .noConfidence _ => some .yes
          | _ => none
        | .no => none

def tallySpoVotes (distribution : PoolStakeDistribution) (isBootstrapPhase : Bool)
    (pools : PoolState) (credentials : StakeCredentials) : VoteTally :=
  let votes := distribution.poolStakes.entries.foldl (fun tally entry =>
    tally.addVote entry.2 (poolVote action isBootstrapPhase pools credentials entry.1))
    VoteTally.empty
  { votes with total := distribution.totalActiveStake }

/-! ## Thresholds -/

def drepThresholdForAction (action : Action) (hasCommittee : Bool)
    (thresholds : DRepVotingThresholds) : Option UnitInterval :=
  match action with
  | .parameterChange _ update _ => conwayDrepParameterChangeThreshold update thresholds
  | .hardForkInitiation .. => some thresholds.hardForkInitiation
  | .noConfidence _ => some thresholds.motionNoConfidence
  | .updateCommittee .. =>
    some (if hasCommittee then thresholds.committeeNormal else thresholds.committeeNoConfidence)
  | .newConstitution .. => some thresholds.updateToConstitution
  | .treasuryWithdrawals .. => some thresholds.treasuryWithdrawal
  | .infoAction => none

def spoThresholdForAction (action : Action) (hasCommittee : Bool)
    (thresholds : PoolVotingThresholds) : Option UnitInterval :=
  match action with
  | .parameterChange _ update _ =>
    if conwayParameterChangeHasSpoSecurityVoteGroup update then
      some thresholds.ppSecurityGroup
    else none
  | .hardForkInitiation .. => some thresholds.hardForkInitiation
  | .noConfidence _ => some thresholds.motionNoConfidence
  | .updateCommittee .. =>
    some (if hasCommittee then thresholds.committeeNormal else thresholds.committeeNoConfidence)
  | .newConstitution .. | .treasuryWithdrawals .. | .infoAction => none

/-- No threshold at all, as in the bootstrap phase. -/
def DRepVotingThresholds.zero : DRepVotingThresholds where
  motionNoConfidence := ⟨0, 1⟩
  committeeNormal := ⟨0, 1⟩
  committeeNoConfidence := ⟨0, 1⟩
  updateToConstitution := ⟨0, 1⟩
  hardForkInitiation := ⟨0, 1⟩
  ppNetworkGroup := ⟨0, 1⟩
  ppEconomicGroup := ⟨0, 1⟩
  ppTechnicalGroup := ⟨0, 1⟩
  ppGovGroup := ⟨0, 1⟩
  treasuryWithdrawal := ⟨0, 1⟩

/-! ## Acceptance -/

/-- What the votes are counted against. -/
structure RatifyContext where
  committee : CommitteeState
  committeeQuorum : UnitInterval
  hasCommittee : Bool
  minCommitteeSize : UInt64
  dreps : DrepState
  drepDelegatedStake : KeyedMap DRep UInt64
  drepActivity : UInt64
  drepThresholds : DRepVotingThresholds
  poolStakeDist : PoolStakeDistribution
  poolThresholds : PoolVotingThresholds
  pools : PoolState
  credentials : StakeCredentials
  currentEpoch : EpochNo
  isBootstrapPhase : Bool

def acceptedByCommittee : Bool :=
  match action.proposal.govAction with
  | .noConfidence _ | .updateCommittee .. => true
  | .infoAction => false
  | _ =>
    if !context.hasCommittee then false
    else if !context.isBootstrapPhase &&
        countActiveCommitteeMembers context.committee context.currentEpoch <
          context.minCommitteeSize then false
    else
      (tallyCommitteeVotes action context.committee context.currentEpoch).meetsThreshold
        context.committeeQuorum

def acceptedByDreps (context : RatifyContext) (thresholds : DRepVotingThresholds)
    (action : ActionState) : Bool :=
  match drepThresholdForAction action.proposal.govAction context.hasCommittee thresholds with
  | none => true
  | some threshold =>
    let countNoConfidenceAsYes :=
      match action.proposal.govAction with
      | .noConfidence _ => true
      | _ => false
    (tallyDrepVotes action context.dreps context.drepDelegatedStake context.currentEpoch
      context.drepActivity countNoConfidenceAsYes).meetsThreshold threshold

def acceptedBySpo : Bool :=
  match spoThresholdForAction action.proposal.govAction context.hasCommittee
      context.poolThresholds with
  | none => true
  | some threshold =>
    (tallySpoVotes action context.poolStakeDist context.isBootstrapPhase context.pools
      context.credentials).meetsThreshold threshold

/-- Committee, representatives and pools accept the action. -/
def ratifyAction : Bool :=
  acceptedByCommittee context action &&
    acceptedByDreps context (if context.isBootstrapPhase then .zero else context.drepThresholds)
      action &&
    acceptedBySpo context action

/-! ## Enactment -/

/-- What an action is about; actions of one purpose form a lineage. -/
inductive ConwayGovActionPurpose where
  | parameterChange
  | hardFork
  | committee
  | constitution
  | treasuryWithdrawals
  | info
deriving DecidableEq, Repr

def conwayGovActionPurpose : Action → ConwayGovActionPurpose
  | .parameterChange .. => .parameterChange
  | .hardForkInitiation .. => .hardFork
  | .noConfidence _ | .updateCommittee .. => .committee
  | .newConstitution .. => .constitution
  | .treasuryWithdrawals .. => .treasuryWithdrawals
  | .infoAction => .info

/-- The enacted constitution, quorum and last action of each lineage. -/
structure EnactState where
  constitution : Constitution
  committeeQuorum : UnitInterval
  hasCommittee : Bool
  prevPparamsUpdate : Option GovActionId
  prevHardFork : Option GovActionId
  prevCommittee : Option GovActionId
  prevConstitution : Option GovActionId
deriving DecidableEq, Repr

namespace EnactState

def default : EnactState where
  constitution := ⟨⟨[], 0⟩, none⟩
  committeeQuorum := ⟨0, 1⟩
  hasCommittee := true
  prevPparamsUpdate := none
  prevHardFork := none
  prevCommittee := none
  prevConstitution := none

def enactedRoot (enact : EnactState) : ConwayGovActionPurpose → Option GovActionId
  | .parameterChange => enact.prevPparamsUpdate
  | .hardFork => enact.prevHardFork
  | .committee => enact.prevCommittee
  | .constitution => enact.prevConstitution
  | .treasuryWithdrawals | .info => none

end EnactState

inductive EnactOutcome where
  | noEffect
  | constitutionUpdated
  | committeeRemoved
  | committeeUpdated (membersRemoved membersAdded : Nat)
  | hardForkEnacted (newVersion : UInt64 × UInt64)
  | treasuryWithdrawn (totalWithdrawn : UInt64)
  | parameterChangeRecorded
deriving DecidableEq, Repr

/-- What enactment moves. -/
structure Enactment where
  enact : EnactState
  committee : CommitteeState
  protocolParams : Option ProtocolParameters
  rewardAccounts : RewardAccounts
  accounting : AccountingState

/-- Remove members from the committee, counting those who were seated. -/
def removeMembers (members : List StakeCredential) (committee : CommitteeState) :
    CommitteeState × Nat :=
  members.foldl (fun (committee, removed) credential =>
    if (committee.lookup credential).any (·.expiresAt.isSome) then
      (committee.clearMembership credential, removed + 1)
    else (committee, removed)) (committee, 0)

/-- Seat members, counting those who were unknown. -/
def addMembers (members : List (StakeCredential × UInt64)) (committee : CommitteeState) :
    CommitteeState × Nat :=
  members.foldl (fun (committee, added) member =>
    (committee.registerWithTerm member.1 member.2,
      if (committee.lookup member.1).isNone then added + 1 else added)) (committee, 0)

/-- Pay one withdrawal out of the treasury; nothing happens to an account that is not there. -/
def payWithdrawal (paid : RewardAccounts × UInt64 × UInt64)
    (withdrawal : RewardAccount × UInt64) : RewardAccounts × UInt64 × UInt64 :=
  let (accounts, treasury, total) := paid
  if withdrawal.2 = 0 ∨ (accounts.lookup withdrawal.1).isNone then paid
  else
    (accounts.credit withdrawal.1 withdrawal.2, saturatingSub treasury withdrawal.2,
      saturatingAdd total withdrawal.2)

/-- Carry out an accepted action. -/
def enactGovAction (actionId : GovActionId) (action : Action) (state : Enactment) :
    Enactment × EnactOutcome :=
  match action with
  | .infoAction => (state, .noEffect)
  | .newConstitution _ constitution =>
    ({ state with
        enact := { state.enact with
          constitution := constitution
          prevConstitution := some actionId } }, .constitutionUpdated)
  | .noConfidence _ =>
    ({ state with
        committee := state.committee.clearAllMembership
        enact := { state.enact with
          committeeQuorum := ⟨0, 1⟩
          hasCommittee := false
          prevCommittee := some actionId } }, .committeeRemoved)
  | .updateCommittee _ membersToRemove membersToAdd quorum =>
    let (reduced, removed) := removeMembers membersToRemove state.committee
    let (seated, added) := addMembers
      (KeyedMap.pairs membersToAdd) reduced
    ({ state with
        committee := seated
        enact := { state.enact with
          committeeQuorum := quorum
          hasCommittee := true
          prevCommittee := some actionId } }, .committeeUpdated removed added)
  | .hardForkInitiation _ protocolVersion =>
    ({ state with
        protocolParams := some
          { state.protocolParams.getD {} with protocolVersion := some protocolVersion }
        enact := { state.enact with prevHardFork := some actionId } },
      .hardForkEnacted protocolVersion)
  | .treasuryWithdrawals withdrawals _ =>
    let (accounts, treasury, total) :=
      (KeyedMap.pairs withdrawals).foldl payWithdrawal
        (state.rewardAccounts, state.accounting.treasury, 0)
    ({ state with
        rewardAccounts := accounts
        accounting := { state.accounting with treasury := treasury } },
      .treasuryWithdrawn total)
  | .parameterChange _ update _ =>
    ({ state with
        protocolParams := some ((state.protocolParams.getD {}).applyUpdate update)
        enact := { state.enact with prevPparamsUpdate := some actionId } },
      .parameterChangeRecorded)

end Yggdrasil.Ledger
