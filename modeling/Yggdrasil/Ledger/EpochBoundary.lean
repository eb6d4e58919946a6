import Yggdrasil.Ledger.EraTransitions
import Yggdrasil.Ledger.LedgerRules
import Yggdrasil.Ledger.Ratification
import Yggdrasil.Ledger.Rewards.EpochRewards

/-!
# The epoch boundary

What happens to the ledger state and the stake snapshots between two epochs
(`epoch_boundary.rs`): rewards, instantaneous rewards, the new snapshot, pool retirement,
parameter updates, accounting, ratification, expiry of proposals and donations, in that order.

A call that fails returns no state: the source has then changed nothing but the epoch number.
Loops of the source that search until nothing changes run here for as many rounds as there are
proposals, since every round but the last finds a new one.
-/

namespace Yggdrasil.Ledger

open Library KeyedMap
open Rewards (EpochRewardDistribution RewardParams)

abbrev ShelleyUtxo := KeyedMap ShelleyTxIn ShelleyTxOut

/-- The part of the state that no transaction with scripts moves. -/
structure EpochState where
  shelleyUtxo : ShelleyUtxo
  genesisUpdateQuorum : UInt64
  previousProtocolParams : Option ProtocolParameters
  pendingPparamUpdates : PendingPparamUpdates
  blocksMade : KeyedMap PoolKeyHash UInt64
  blocksMadePrev : KeyedMap PoolKeyHash UInt64
  maxLovelaceSupply : UInt64
  activeSlotCoeff : UnitInterval
  enactState : EnactState

abbrev Actions := GovernanceActions ProtocolParameterUpdate
abbrev BoundaryRest := LedgerRest ProtocolParameterUpdate EpochState
abbrev BoundaryState := FullState ProtocolParameterUpdate EpochState

/-- The state in which nothing has happened (`LedgerState::new`). -/
def BoundaryState.new (currentEra : Era) : BoundaryState where
  tip := .origin
  currentEra := currentEra
  protocolParams := none
  genDelegs := ∅
  multiEraUtxo := ∅
  rest :=
    { poolState := ⟨∅, ∅⟩
      stakeCredentials := ∅
      committeeState := ∅
      drepState := ∅
      rewardAccounts := ∅
      depositPot := ⟨0, 0, 0, 0⟩
      genDelegs := ∅
      futureGenDelegs := ∅
      currentEpoch := 0
      expectedNetworkId := none
      governanceActions := ∅
      accounting := ⟨0, 0⟩
      utxosDonation := 0
      numDormantEpochs := 0
      instantaneousRewards := ⟨∅, ∅, 0, 0⟩
      stabilityWindow := none
      slotsPerEpoch := 0
      byronShelleyTransition := none
      pendingShelleyGenesisUtxo := none
      pendingShelleyGenesisStake := none
      pendingShelleyGenesisPools := none
      pendingShelleyGenesisDelegs := none
      other :=
        { shelleyUtxo := ∅
          genesisUpdateQuorum := 5
          previousProtocolParams := none
          pendingPparamUpdates := ∅
          blocksMade := ∅
          blocksMadePrev := ∅
          maxLovelaceSupply := 0
          activeSlotCoeff := ⟨0, 1⟩
          enactState := .default } }

/-! ## Payments into reward accounts -/

/-- Payments so far: the accounts, what reached them and what did not. -/
structure Payout where
  accounts : RewardAccounts
  count : Nat
  paid : UInt64
  unclaimed : UInt64

namespace Payout

def start (accounts : RewardAccounts) : Payout := ⟨accounts, 0, 0, 0⟩

/-- Pay into an account that is there; otherwise the amount is unclaimed. -/
def pay (target : Option RewardAccount) (amount : UInt64) (payout : Payout) : Payout :=
  match target.filter fun account => (payout.accounts.lookup account).isSome with
  | some account =>
    { payout with
      accounts := payout.accounts.credit account amount
      count := payout.count + 1
      paid := saturatingAdd payout.paid amount }
  | none => { payout with unclaimed := saturatingAdd payout.unclaimed amount }

/-- Pay into an account. -/
def payAccount (payout : Payout) (payment : RewardAccount × UInt64) : Payout :=
  payout.pay (some payment.1) payment.2

/-- Pay into the first account of a credential. -/
def payCredential (payout : Payout) (payment : StakeCredential × UInt64) : Payout :=
  payout.pay (payout.accounts.findAccountByCredential payment.1) payment.2

/-- Give the deposit of a proposal back; an account that is not well formed gets nothing. -/
def payProposal (payout : Payout) (proposal : ProposalProcedure ProtocolParameterUpdate) : Payout :=
  payout.pay (RewardAccount.fromBytes proposal.rewardAccount) proposal.deposit

end Payout

/-! ## Rewards -/

/-- The parameters of the previous epoch, the current ones before the first boundary. -/
def BoundaryState.previousProtocolParams (state : BoundaryState) : Option ProtocolParameters :=
  state.rest.other.previousProtocolParams.or state.protocolParams

/-- What the rewards of the boundary are computed from. -/
def boundaryRewardParams (state : BoundaryState) (feePot : UInt64)
    (params previous : ProtocolParameters) (eta : UnitInterval) : RewardParams :=
  let prefilter : Bool := (previous.protocolVersion.map (·.1)).getD 0 < 7
  { rho := previous.rho
    tau := previous.tau
    a0 := previous.a0
    nOpt := previous.nOpt
    minPoolCost := params.minPoolCost
    reserves := state.rest.accounting.reserves
    feePot := feePot
    maxLovelaceSupply := state.rest.other.maxLovelaceSupply
    eta := eta
    prefilterUnregistered := prefilter
    registeredCredentials :=
      if prefilter then state.rest.rewardAccounts.keys.map (·.credential) else [] }

def boundaryRewards (performance : KeyedMap PoolKeyHash UnitInterval) (state : BoundaryState)
    (snapshots : StakeSnapshots) : Result EpochRewardDistribution :=
  match state.protocolParams, state.previousProtocolParams with
  | some params, some previous => do
    let d := previous.d.getD ⟨0, 1⟩
    let blocks := state.rest.other.blocksMadePrev
    let eta ← Rewards.computeEta d state.rest.other.activeSlotCoeff state.rest.slotsPerEpoch
      blocks
    let effective := if performance.entries.isEmpty && !blocks.entries.isEmpty then
      Rewards.derivePoolPerformance blocks snapshots.go d else performance
    return Rewards.computeEpochRewards
      (boundaryRewardParams state snapshots.previousFeePot params previous eta) snapshots.go
      effective
  | _, _ => reject .missingProtocolParameters

/-- Credit operators and members; what nobody is registered for is unclaimed. -/
def distributeRewards (accounts : RewardAccounts) (dist : EpochRewardDistribution) : Payout :=
  let leaders := ((pairs dist.leaderDeltas).filter
    (·.2 ≠ 0)).foldl Payout.payAccount (.start accounts)
  ((pairs dist.rewardDeltas).filter
    (·.2 ≠ 0)).foldl Payout.payCredential leaders

/-! ## Instantaneous rewards -/

structure MirEpochResult where
  accountsCredited : Nat := 0
  fromReserves : UInt64 := 0
  fromTreasury : UInt64 := 0
  potDeltaReserves : Int64 := 0
  potDeltaTreasury : Int64 := 0
  potsInsufficient : Bool := false
deriving DecidableEq, Repr

namespace InstantaneousRewards

def empty : InstantaneousRewards := ⟨∅, ∅, 0, 0⟩

variable (accounts : RewardAccounts) (accounting : AccountingState) (rewards : InstantaneousRewards)

def isEmpty : Bool :=
  rewards.irReserves.entries.isEmpty && rewards.irTreasury.entries.isEmpty &&
    rewards.deltaReserves = 0 && rewards.deltaTreasury = 0

/-- The rewards of a pot whose credentials have an account. -/
def payable (pot : MirPot) : List (StakeCredential × Int64) :=
  (pairs (rewards.ofPot pot)).filter fun entry =>
    (accounts.lastAccountOf entry.1).isSome

/-- What a pot pays, added with wrap-around. -/
def totalOf (pot : MirPot) : Int64 := ((rewards.payable accounts pot).map (·.2)).foldl (· + ·) 0

/-- A pot can pay after the transfers between the pots. -/
def sufficient (pot : MirPot) : Bool :=
  let total := rewards.totalOf accounts pot
  let available := max ((accounting.ofPot pot).toNat + (rewards.delta pot).toInt) 0
  total ≤ 0 || total.toInt ≤ available % 2 ^ 64

/-- The rewards of both pots by credential, added with wrap-around. -/
def combined : KeyedMap StakeCredential Int64 :=
  (rewards.payable accounts .reserves ++ rewards.payable accounts .treasury).foldl
    (fun map entry => upsert entry.1 0 (· + entry.2) map) ∅

def payments : List (StakeCredential × Int64) :=
  (pairs (rewards.combined accounts)).filter (·.2 ≠ 0)

/-- Both pots can pay. -/
def canPay : Bool :=
  rewards.sufficient accounts accounting .reserves &&
    rewards.sufficient accounts accounting .treasury

/-- Both pots can pay, and one of them has to. -/
def pays : Bool :=
  rewards.canPay accounts accounting &&
    (rewards.totalOf accounts .reserves ≠ 0 || rewards.totalOf accounts .treasury ≠ 0)

end InstantaneousRewards

/-- Add a reward to the last account that its credential had before the payments. -/
def creditInstantaneous (registered : RewardAccounts) (accounts : RewardAccounts)
    (reward : StakeCredential × Int64) : RewardAccounts :=
  match registered.lastAccountOf reward.1 with
  | some account =>
    modify account (fun state =>
      { state with balance := saturatingAddSigned state.balance reward.2 }) accounts
  | none => accounts

/-- Transfer to or from a pot, then what it pays. -/
def settlePot (pot : UInt64) (delta total : Int64) : UInt64 :=
  saturatingAddSigned (saturatingAddSigned pot delta) (-total)

/-- Pay the instantaneous rewards and forget them; both pots pay or neither does. -/
def applyMirAtEpochBoundary (rest : BoundaryRest) : BoundaryRest × MirEpochResult :=
  let rewards := rest.instantaneousRewards
  let cleared := { rest with instantaneousRewards := .empty }
  if rewards.isEmpty then (cleared, {})
  else
    let totalReserves := rewards.totalOf rest.rewardAccounts .reserves
    let totalTreasury := rewards.totalOf rest.rewardAccounts .treasury
    let canPay := rewards.canPay rest.rewardAccounts rest.accounting
    let pays := rewards.pays rest.rewardAccounts rest.accounting
    let payments := rewards.payments rest.rewardAccounts
    ({ cleared with
        rewardAccounts :=
          if pays then payments.foldl (creditInstantaneous rest.rewardAccounts) rest.rewardAccounts
          else rest.rewardAccounts
        accounting :=
          if canPay then
            { treasury := settlePot rest.accounting.treasury rewards.deltaTreasury totalTreasury
              reserves := settlePot rest.accounting.reserves rewards.deltaReserves totalReserves }
          else rest.accounting },
      { accountsCredited := if pays then payments.length else 0
        fromReserves := if pays ∧ 0 < totalReserves then totalReserves.toUInt64 else 0
        fromTreasury := if pays ∧ 0 < totalTreasury then totalTreasury.toUInt64 else 0
        potDeltaReserves := rewards.deltaReserves
        potDeltaTreasury := rewards.deltaTreasury
        potsInsufficient := !canPay })

/-! ## Pool retirement -/

variable (action : Action) (epoch : EpochNo) (state : BoundaryState) (actions : Actions)

/-- The deposits that retiring pools get back, with the accounts they go to. -/
def retirementRefunds (pools : PoolState) : List (RewardAccount × UInt64) :=
  ((pools.retiring epoch).map fun entry =>
    (entry.2.params.rewardAccount, entry.2.deposit)).filter (·.2 ≠ 0)

/-- Remove the pools that retire and refund their deposits. -/
def retirePoolsWithRefunds (rest : BoundaryRest) : BoundaryRest × List PoolKeyHash × Payout :=
  let retired := (rest.poolState.retiring epoch).map Prod.fst
  let refunds := retirementRefunds epoch rest.poolState
  let payout := refunds.foldl Payout.payAccount (.start rest.rewardAccounts)
  if retired.isEmpty then (rest, [], .start rest.rewardAccounts)
  else
    ({ rest with
        poolState := rest.poolState.processRetirements epoch
        stakeCredentials := rest.stakeCredentials.clearPoolDelegations retired
        rewardAccounts := payout.accounts
        depositPot := refunds.foldl (fun pot refund => pot.returnPoolDeposit refund.2)
          rest.depositPot }, retired, payout)

/-! ## Governance -/

/-- The action an action builds on; none for actions without a lineage. -/
def govActionPrevId : Action → Option (Option GovActionId)
  | .parameterChange prevActionId .. | .hardForkInitiation prevActionId _
  | .noConfidence prevActionId | .updateCommittee prevActionId ..
  | .newConstitution prevActionId _ => some prevActionId
  | .treasuryWithdrawals .. | .infoAction => none

def actionPriority : Action → Nat
  | .noConfidence _ => 0
  | .updateCommittee .. => 1
  | .newConstitution .. => 2
  | .hardForkInitiation .. => 3
  | .parameterChange .. => 4
  | .treasuryWithdrawals .. => 5
  | .infoAction => 6

/-- Once such an action is enacted or waits, nothing after it is enacted at this boundary. -/
def delayingAction : Action → Bool
  | .noConfidence _ | .hardForkInitiation .. | .updateCommittee .. | .newConstitution .. => true
  | _ => false

/-- The action follows the last one enacted in its lineage. -/
def prevActionAsExpected (enact : EnactState) : Bool :=
  match govActionPrevId action with
  | none => true
  | some prevActionId => prevActionId = enact.enactedRoot (conwayGovActionPurpose action)

/-- What an action takes from the treasury, added with wrap-around. -/
def proposedWithdrawal : Action → UInt64
  | .treasuryWithdrawals withdrawals _ =>
    (withdrawals.entries.map (·.2)).foldl (· + ·) 0
  | _ => 0

def withdrawalCanWithdraw (treasury : UInt64) : Bool := proposedWithdrawal action ≤ treasury

def validCommitteeTerm (committeeMaxTermLength : Option UInt64) (currentEpoch : EpochNo) : Bool :=
  match committeeMaxTermLength, action with
  | some maxTerm, .updateCommittee _ _ membersToAdd _ =>
    membersToAdd.entries.all fun entry => entry.2 ≤ saturatingAdd currentEpoch maxTerm
  | _, _ => true

/-- The votes that the weights of the boundary count. -/
structure VotingWeights where
  drepDelegatedStake : KeyedMap DRep UInt64
  poolStakeDist : PoolStakeDistribution
  drepActivity : UInt64

def votingWeights (snapshots : StakeSnapshots) (drepActivity : UInt64) : VotingWeights :=
  let deposits := computeProposalDepositsPerCredential state.rest.governanceActions
  { drepDelegatedStake := computeDrepStakeDistribution snapshots.mark state.rest.stakeCredentials
      deposits
    poolStakeDist := augmentPoolDistWithProposalDeposits state.rest.stakeCredentials deposits
      snapshots.mark.poolStakeDistribution
    drepActivity := drepActivity }

/-- What an action is ratified against, as earlier enactments left it. -/
def ratifyContext (weights : VotingWeights) (currentEpoch : EpochNo) (params : ProtocolParameters)
    (state : BoundaryState) : RatifyContext where
  committee := state.rest.committeeState
  committeeQuorum := state.rest.other.enactState.committeeQuorum
  hasCommittee := state.rest.other.enactState.hasCommittee
  minCommitteeSize := params.minCommitteeSize.getD 0
  dreps := state.rest.drepState
  drepDelegatedStake := weights.drepDelegatedStake
  drepActivity := weights.drepActivity
  drepThresholds := params.drepVotingThresholds.getD {}
  poolStakeDist := weights.poolStakeDist
  poolThresholds := params.poolVotingThresholds.getD {}
  pools := state.rest.poolState
  credentials := state.rest.stakeCredentials
  currentEpoch := currentEpoch
  isBootstrapPhase := conwayBootstrapPhase params.protocolVersion

def GovernanceActionState.expired {Update : Type} (epoch : EpochNo)
    (action : GovernanceActionState Update) : Bool :=
  action.expiresAfter.any (· < epoch)

/-- The state in the middle of ratification. -/
structure RatifyProgress where
  state : BoundaryState
  enactedIds : List GovActionId
  outcomes : List EnactOutcome
  /-- The proposals whose deposits are due. -/
  refunds : List (ProposalProcedure ProtocolParameterUpdate)
  enactedPurposes : List ConwayGovActionPurpose
  delayed : Bool
  withdrawalBudget : UInt64

/-- Lineage, term, delay, budget and votes allow the action. -/
def passesChecks (weights : VotingWeights) (currentEpoch : EpochNo) (progress : RatifyProgress)
    (action : ActionState) : Bool :=
  let params := progress.state.protocolParams.getD {}
  prevActionAsExpected action.proposal.govAction progress.state.rest.other.enactState &&
    validCommitteeTerm action.proposal.govAction params.committeeTermLimit currentEpoch &&
    !progress.delayed &&
    withdrawalCanWithdraw action.proposal.govAction progress.withdrawalBudget &&
    ratifyAction (ratifyContext weights currentEpoch params progress.state) action

/-- Put what an enactment moves back into the state. -/
def BoundaryState.withEnactment (enactment : Enactment) (state : BoundaryState) : BoundaryState :=
  { state with
    protocolParams := enactment.protocolParams
    rest := { state.rest with
      committeeState := enactment.committee
      rewardAccounts := enactment.rewardAccounts
      accounting := enactment.accounting
      other := { state.rest.other with enactState := enactment.enact } } }

def BoundaryState.enactment : Enactment where
  enact := state.rest.other.enactState
  committee := state.rest.committeeState
  protocolParams := state.protocolParams
  rewardAccounts := state.rest.rewardAccounts
  accounting := state.rest.accounting

/-- Entering version 10 forgets the votes delegated to nobody. -/
def hardForkFixup : BoundaryState :=
  match action with
  | .hardForkInitiation _ version =>
    if version.1 = 10 then
      { state with
        rest := { state.rest with
          stakeCredentials := state.rest.stakeCredentials.cleanupDanglingDrepDelegations
            state.rest.drepState } }
    else state
  | _ => state

/-- Enact an action that passed its checks. -/
def enactStep (id : GovActionId) (action : ActionState) (progress : RatifyProgress) :
    RatifyProgress :=
  let govAction := action.proposal.govAction
  let removed : BoundaryState :=
    { progress.state with
      rest := { progress.state.rest with
        governanceActions := progress.state.rest.governanceActions.erase id } }
  let (enactment, outcome) := enactGovAction id govAction removed.enactment
  { state := hardForkFixup govAction (removed.withEnactment enactment)
    enactedIds := progress.enactedIds ++ [id]
    outcomes := progress.outcomes ++ [outcome]
    refunds := progress.refunds ++ [action.proposal]
    enactedPurposes := progress.enactedPurposes ++ [conwayGovActionPurpose govAction]
    delayed := progress.delayed || delayingAction govAction
    withdrawalBudget := saturatingSub progress.withdrawalBudget (proposedWithdrawal govAction) }

/-- One action of the ratification: enact it, or remember that it delays those after it. -/
def ratifyStep (weights : VotingWeights) (currentEpoch : EpochNo) (progress : RatifyProgress)
    (id : GovActionId) : RatifyProgress :=
  match progress.state.rest.governanceActions.lookup id with
  | none => progress
  | some action =>
    if passesChecks weights currentEpoch progress action then enactStep id action progress
    else
      { progress with
        delayed := progress.delayed ||
          (!action.expired currentEpoch && delayingAction action.proposal.govAction) }

/-- The place of an action among those that are ratified. -/
def ratificationRank (id : GovActionId) (action : ActionState) : Nat :=
  (actionPriority action.proposal.govAction * 2 ^ 256 + id.transactionId.toNat) * 2 ^ 16 +
    id.govActionIndex.toNat

/-- The actions by priority, then by identifier. -/
def ratificationOrder : List GovActionId :=
  (actions.entries.insertionSort fun a b =>
    ratificationRank a.1 a.2 ≤ ratificationRank b.1 b.2).map (·.1)

/-- The identifiers of one purpose with the actions they build on. -/
def purposeProposals (purpose : ConwayGovActionPurpose) : List (GovActionId × Option GovActionId) :=
  (actions.entries.filter fun entry =>
    conwayGovActionPurpose entry.2.proposal.govAction = purpose).map fun entry =>
      (entry.1, (govActionPrevId entry.2.proposal.govAction).join)

/-- Add the proposals that chain from the root or from a valid proposal. -/
def lineagePass (root : Option GovActionId) (proposals : List (GovActionId × Option GovActionId))
    (valid : List GovActionId) : List GovActionId :=
  proposals.foldl (fun valid proposal =>
    if proposal.1 ∈ valid then valid
    else if proposal.2 = root ∨ proposal.2.any (· ∈ valid) then valid ++ [proposal.1]
    else valid) valid

/-- Repeat until nothing changes. -/
def lineageClosure (root : Option GovActionId)
    (proposals : List (GovActionId × Option GovActionId)) : Nat → List GovActionId →
    List GovActionId
  | 0, valid => valid
  | rounds + 1, valid =>
    let next := lineagePass root proposals valid
    if next.length = valid.length then valid else lineageClosure root proposals rounds next

/-- The proposals that no longer chain from the root of a purpose with an enactment. -/
def removeLineageConflictingProposals (enact : EnactState)
    (purposes : List ConwayGovActionPurpose) : List GovActionId :=
  purposes.dedup.flatMap fun purpose =>
    let proposals := purposeProposals actions purpose
    let valid := lineageClosure (enact.enactedRoot purpose) proposals proposals.length []
    (proposals.map (·.1)).filter (· ∉ valid)

def removeAction (removed : Actions × List (ProposalProcedure ProtocolParameterUpdate))
    (id : GovActionId) : Actions × List (ProposalProcedure ProtocolParameterUpdate) :=
  match removed.1.lookup id with
  | some action => (removed.1.erase id, removed.2 ++ [action.proposal])
  | none => removed

/-- Remove actions, keeping the proposals of those that were there. -/
def removeActions (ids : List GovActionId) (actions : Actions) :
    Actions × List (ProposalProcedure ProtocolParameterUpdate) :=
  ids.foldl removeAction (actions, [])

structure RatifyAndEnactResult where
  enactedIds : List GovActionId := []
  outcomes : List EnactOutcome := []
  enactedDepositRefunds : UInt64 := 0
  removedDueToEnactment : List GovActionId := []
  removedDueToEnactmentDepositRefunds : UInt64 := 0
  unclaimedDeposits : UInt64 := 0
deriving DecidableEq, Repr

def RatifyProgress.start : RatifyProgress where
  state := state
  enactedIds := []
  outcomes := []
  refunds := []
  enactedPurposes := []
  delayed := false
  withdrawalBudget := state.rest.accounting.treasury

/-- The actions after ratification, one after the other. -/
def ratifyLoop (currentEpoch : EpochNo) (snapshots : StakeSnapshots) (drepActivity : UInt64)
    (state : BoundaryState) : RatifyProgress :=
  (ratificationOrder state.rest.governanceActions).foldl
    (ratifyStep (votingWeights state snapshots drepActivity) currentEpoch)
    (.start state)

/-- Replace the pending actions and the accounts. -/
def BoundaryState.withRefunds (actions : Actions) (accounts : RewardAccounts)
    (state : BoundaryState) : BoundaryState :=
  { state with
    rest := { state.rest with governanceActions := actions, rewardAccounts := accounts } }

/-- Ratify and enact, then drop what conflicts with it and refund the deposits. -/
def ratifyAndEnact (currentEpoch : EpochNo) (snapshots : StakeSnapshots) (drepActivity : UInt64)
    (state : BoundaryState) : BoundaryState × RatifyAndEnactResult :=
  let progress := ratifyLoop currentEpoch snapshots drepActivity state
  if progress.enactedIds.isEmpty then (progress.state, {})
  else
    let stale := removeLineageConflictingProposals progress.state.rest.governanceActions
      progress.state.rest.other.enactState progress.enactedPurposes
    let (actions, conflicting) := removeActions stale progress.state.rest.governanceActions
    let enacted := progress.refunds.foldl Payout.payProposal
      (.start progress.state.rest.rewardAccounts)
    let payout := conflicting.foldl Payout.payProposal { enacted with paid := 0 }
    (progress.state.withRefunds actions payout.accounts,
      { enactedIds := progress.enactedIds
        outcomes := progress.outcomes
        enactedDepositRefunds := enacted.paid
        removedDueToEnactment := stale
        removedDueToEnactmentDepositRefunds := payout.paid
        unclaimedDeposits := payout.unclaimed })

/-- Remove actions and refund their deposits. -/
def removeWithRefunds (ids : List GovActionId) (state : BoundaryState) : BoundaryState × Payout :=
  let (actions, proposals) := removeActions ids state.rest.governanceActions
  let payout := proposals.foldl Payout.payProposal (.start state.rest.rewardAccounts)
  (state.withRefunds actions payout.accounts, payout)

def expiredActions : List GovActionId :=
  (actions.entries.filter fun entry => entry.2.expired epoch).map (·.1)

def removeExpiredGovernanceActions : BoundaryState × List GovActionId × Payout :=
  let expired := expiredActions epoch state.rest.governanceActions
  let (removed, payout) := removeWithRefunds expired state
  (removed, expired, payout)

/-- The actions that build on a removed one. -/
def nextWave (removed : List GovActionId) : List GovActionId :=
  (actions.entries.filter fun entry =>
    entry.1 ∉ removed ∧
      (govActionPrevId entry.2.proposal.govAction).join.any (· ∈ removed)).map (·.1)

/-- Repeat until no action builds on a removed one. -/
def descendantClosure (actions : Actions) : Nat → List GovActionId → List GovActionId
  | 0, removed => removed
  | rounds + 1, removed =>
    let wave := nextWave actions removed
    if wave.isEmpty then removed else descendantClosure actions rounds (removed ++ wave)

/-- The actions that build on removed ones. -/
def descendantsOf (removedIds : List GovActionId) (actions : Actions) : List GovActionId :=
  (descendantClosure actions actions.entries.length removedIds).filter (· ∉ removedIds)

def removeDescendantsOf (removedIds : List GovActionId) (state : BoundaryState) :
    BoundaryState × Payout :=
  removeWithRefunds (descendantsOf removedIds state.rest.governanceActions) state

/-! ## The boundary -/

structure EpochBoundaryEvent where
  newEpoch : EpochNo
  pparamUpdatesApplied : Nat
  poolsRetired : Nat
  retiredPoolKeys : List PoolKeyHash
  poolDepositRefunds : UInt64
  unclaimedPoolDeposits : UInt64
  rewardsDistributed : UInt64
  treasuryDelta : UInt64
  unclaimedRewards : UInt64
  deltaReserves : UInt64
  accountsRewarded : Nat
  governanceActionsExpired : Nat
  governanceDepositRefunds : UInt64
  expiredGovActionIds : List GovActionId
  drepsExpired : Nat
  governanceActionsEnacted : Nat
  enactedGovActionIds : List GovActionId
  enactOutcomes : List EnactOutcome
  enactedDepositRefunds : UInt64
  removedDueToEnactment : List GovActionId
  removedDueToEnactmentDepositRefunds : UInt64
  unclaimedGovernanceDeposits : UInt64
  donationsTransferred : UInt64
  mirAccountsCredited : Nat
  mirFromReserves : UInt64
  mirFromTreasury : UInt64
  mirPotDeltaReserves : Int64
  mirPotDeltaTreasury : Int64
  mirPotsInsufficient : Bool
deriving DecidableEq, Repr

/-- Count the counted blocks as those of the previous epoch. -/
def EpochState.rotateBlocksMade (epoch : EpochState) : EpochState :=
  { epoch with blocksMade := ∅, blocksMadePrev := epoch.blocksMade }

/-- Adopt the parameter updates that are due, keeping the parameters before them. -/
def updateParameters (newEpoch : EpochNo) (state : BoundaryState) : BoundaryState × Nat :=
  let (params, pending, count) := applyDuePendingPparamUpdates state.rest.genDelegs newEpoch
    state.protocolParams state.rest.other.pendingPparamUpdates
  ({ state with
      protocolParams := params
      rest := { state.rest with
        other := { state.rest.other with
          previousProtocolParams := state.protocolParams
          pendingPparamUpdates := pending } } }, count)

/-- What rewards and unclaimed deposits do to treasury and reserves. -/
def settleAccounting (dist : EpochRewardDistribution) (unregistered unclaimedPools : UInt64)
    (accounting : AccountingState) : AccountingState where
  reserves := saturatingAdd (saturatingSub accounting.reserves dist.deltaReserves) dist.unclaimed
  treasury := saturatingAdd
    (saturatingAdd (saturatingAdd accounting.treasury dist.treasuryCut) unregistered)
    unclaimedPools

/-- What has been paid for governance deposits. -/
structure GovernanceRefunds where
  ratified : RatifyAndEnactResult
  expired : Payout
  descendants : Payout

namespace GovernanceRefunds

def totalUnclaimed (refunds : GovernanceRefunds) : UInt64 :=
  saturatingAdd (saturatingAdd refunds.expired.unclaimed refunds.descendants.unclaimed)
    refunds.ratified.unclaimedDeposits

def totalReduction (refunds : GovernanceRefunds) : UInt64 :=
  [refunds.expired.paid, refunds.expired.unclaimed, refunds.descendants.paid,
    refunds.descendants.unclaimed, refunds.ratified.enactedDepositRefunds,
    refunds.ratified.removedDueToEnactmentDepositRefunds,
    refunds.ratified.unclaimedDeposits].foldl saturatingAdd 0

end GovernanceRefunds

/-- Unclaimed deposits and donations go to the treasury, refunds leave the pot; committee and
dormant epochs are brought up to date. -/
def closeGovernance (refunds : GovernanceRefunds) (rest : BoundaryRest) : BoundaryRest :=
  { rest with
    accounting := { rest.accounting with
      treasury := saturatingAdd (saturatingAdd rest.accounting.treasury refunds.totalUnclaimed)
        rest.utxosDonation }
    utxosDonation := 0
    depositPot := rest.depositPot.returnProposalDeposit refunds.totalReduction
    numDormantEpochs := if rest.governanceActions.entries.isEmpty then
      saturatingAdd rest.numDormantEpochs 1 else rest.numDormantEpochs
    committeeState := rest.committeeState.pruneNonMembers }

variable (newEpoch : EpochNo)

/-- The new epoch with its rewards paid. -/
def enterEpoch (accounts : RewardAccounts) (rest : BoundaryRest) : BoundaryRest :=
  { rest with currentEpoch := newEpoch, rewardAccounts := accounts }

/-- Rewards and instantaneous rewards in the new epoch. -/
def payRewards (dist : EpochRewardDistribution) (state : BoundaryState) :
    BoundaryRest × Payout × MirEpochResult :=
  let payout := distributeRewards state.rest.rewardAccounts dist
  let (rest, mir) := applyMirAtEpochBoundary (enterEpoch newEpoch payout.accounts state.rest)
  (rest, payout, mir)

def rotateSnapshots (state : BoundaryState) (rest : BoundaryRest) (snapshots : StakeSnapshots) :
    StakeSnapshots :=
  snapshots.rotate (computeStakeSnapshot state.multiEraUtxo rest.stakeCredentials
    rest.rewardAccounts rest.poolState)

/-- Rotate the block counts and adopt the staged parameters of pools. -/
def adoptStaged (rest : BoundaryRest) : BoundaryRest :=
  { rest with
    poolState := rest.poolState.adoptFutureParams
    other := rest.other.rotateBlocksMade }

/-- After an expiry, remove what builds on the expired actions. -/
def pruneDescendants (expiredIds : List GovActionId) (state : BoundaryState) :
    BoundaryState × Payout :=
  if expiredIds.isEmpty then (state, Payout.start state.rest.rewardAccounts)
  else removeDescendantsOf expiredIds state

/-- Ratification, expiry and the removal of descendants. -/
def governBoundary (snapshots : StakeSnapshots) (drepActivity : UInt64) (state : BoundaryState) :
    BoundaryState × List GovActionId × GovernanceRefunds :=
  let (ratified, result) := ratifyAndEnact newEpoch snapshots drepActivity state
  let (expired, expiredIds, payout) := removeExpiredGovernanceActions newEpoch ratified
  let (pruned, descendants) := pruneDescendants expiredIds expired
  (pruned, expiredIds, ⟨result, payout, descendants⟩)

/-- The stages of a boundary. -/
structure BoundaryRun where
  payout : Payout
  /-- After rewards and instantaneous rewards. -/
  rewarded : BoundaryRest
  mir : MirEpochResult
  rotated : StakeSnapshots
  retired : BoundaryRest
  retiredKeys : List PoolKeyHash
  poolRefunds : Payout
  updateCount : Nat
  /-- After parameter updates and accounting. -/
  accounted : BoundaryState
  governed : BoundaryState
  expiredIds : List GovActionId
  refunds : GovernanceRefunds
  final : BoundaryState

/-- The window of activity that counts for representatives. -/
def boundaryDrepActivity (state : BoundaryState) : UInt64 :=
  (state.protocolParams.bind (·.drepActivity)).getD 18446744073709551615

/-- Parameter updates, then treasury and reserves. -/
def accountBoundary (dist : EpochRewardDistribution) (unregistered unclaimedPools : UInt64)
    (state : BoundaryState) : BoundaryState × Nat :=
  let (updated, updateCount) := updateParameters newEpoch state
  ({ updated with
      rest := { updated.rest with
        accounting := settleAccounting dist unregistered unclaimedPools
          updated.rest.accounting } }, updateCount)

/-- The stages of a boundary, given its rewards. -/
def boundaryRun (state : BoundaryState) (snapshots : StakeSnapshots)
    (dist : EpochRewardDistribution) : BoundaryRun :=
  let payment := payRewards newEpoch dist state
  let rotated := rotateSnapshots state payment.1 snapshots
  let retirement := retirePoolsWithRefunds newEpoch (adoptStaged payment.1)
  let accounted := accountBoundary newEpoch dist payment.2.1.unclaimed
    retirement.2.2.unclaimed { state with rest := retirement.1 }
  let governance := governBoundary newEpoch rotated (boundaryDrepActivity state) accounted.1
  { payout := payment.2.1
    rewarded := payment.1
    mir := payment.2.2
    rotated := rotated
    retired := retirement.1
    retiredKeys := retirement.2.1
    poolRefunds := retirement.2.2
    updateCount := accounted.2
    accounted := accounted.1
    governed := governance.1
    expiredIds := governance.2.1
    refunds := governance.2.2
    final := { governance.1 with
      rest := closeGovernance governance.2.2 governance.1.rest } }

def BoundaryRun.event (run : BoundaryRun) (newEpoch : EpochNo) (dist : EpochRewardDistribution)
    (drepActivity : UInt64) : EpochBoundaryEvent where
  newEpoch := newEpoch
  pparamUpdatesApplied := run.updateCount
  poolsRetired := run.retiredKeys.length
  retiredPoolKeys := run.retiredKeys
  poolDepositRefunds := run.poolRefunds.paid
  unclaimedPoolDeposits := run.poolRefunds.unclaimed
  rewardsDistributed := dist.distributed
  treasuryDelta := saturatingAdd dist.treasuryCut run.payout.unclaimed
  unclaimedRewards := dist.unclaimed
  deltaReserves := dist.deltaReserves
  accountsRewarded := run.payout.count
  governanceActionsExpired := run.expiredIds.length
  governanceDepositRefunds := saturatingAdd run.refunds.expired.paid run.refunds.descendants.paid
  expiredGovActionIds := run.expiredIds
  drepsExpired := (run.final.rest.drepState.inactiveDreps newEpoch drepActivity).length
  governanceActionsEnacted := run.refunds.ratified.enactedIds.length
  enactedGovActionIds := run.refunds.ratified.enactedIds
  enactOutcomes := run.refunds.ratified.outcomes
  enactedDepositRefunds := run.refunds.ratified.enactedDepositRefunds
  removedDueToEnactment := run.refunds.ratified.removedDueToEnactment
  removedDueToEnactmentDepositRefunds := run.refunds.ratified.removedDueToEnactmentDepositRefunds
  unclaimedGovernanceDeposits := saturatingAdd run.refunds.ratified.unclaimedDeposits
    run.refunds.expired.unclaimed
  donationsTransferred := run.governed.rest.utxosDonation
  mirAccountsCredited := run.mir.accountsCredited
  mirFromReserves := run.mir.fromReserves
  mirFromTreasury := run.mir.fromTreasury
  mirPotDeltaReserves := run.mir.potDeltaReserves
  mirPotDeltaTreasury := run.mir.potDeltaTreasury
  mirPotsInsufficient := run.mir.potsInsufficient

def applyEpochBoundary (performance : KeyedMap PoolKeyHash UnitInterval) (state : BoundaryState)
    (snapshots : StakeSnapshots) :
    Result (BoundaryState × StakeSnapshots × EpochBoundaryEvent) := do
  let dist ← boundaryRewards performance state snapshots
  let run := boundaryRun newEpoch state snapshots dist
  return (run.final, run.rotated, run.event newEpoch dist (boundaryDrepActivity state))

end Yggdrasil.Ledger
