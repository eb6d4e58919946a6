import Yggdrasil.Ledger.Registries

/-!
# Updates of protocol parameters

A typed update and its effect on the parameters (`protocol_params.rs`), the groups of parameters
it touches and the vote those groups ask for, and the adoption of the updates that the genesis
keys have voted for (`state.rs`).
-/

namespace Yggdrasil.Ledger

open Library

/-- New values for some of the parameters. -/
structure ProtocolParameterUpdate where
  minFeeA : Option UInt64 := none
  minFeeB : Option UInt64 := none
  maxBlockBodySize : Option UInt32 := none
  maxTxSize : Option UInt32 := none
  maxBlockHeaderSize : Option UInt16 := none
  keyDeposit : Option UInt64 := none
  poolDeposit : Option UInt64 := none
  eMax : Option UInt64 := none
  nOpt : Option UInt64 := none
  a0 : Option UnitInterval := none
  rho : Option UnitInterval := none
  tau : Option UnitInterval := none
  d : Option UnitInterval := none
  extraEntropy : Option Nonce := none
  protocolVersion : Option (UInt64 × UInt64) := none
  minUtxoValue : Option UInt64 := none
  minPoolCost : Option UInt64 := none
  coinsPerUtxoByte : Option UInt64 := none
  costModels : Option CostModels := none
  priceMem : Option UnitInterval := none
  priceStep : Option UnitInterval := none
  maxTxExUnits : Option ExUnits := none
  maxBlockExUnits : Option ExUnits := none
  maxValSize : Option UInt32 := none
  collateralPercentage : Option UInt64 := none
  maxCollateralInputs : Option UInt32 := none
  poolVotingThresholds : Option PoolVotingThresholds := none
  drepVotingThresholds : Option DRepVotingThresholds := none
  minCommitteeSize : Option UInt64 := none
  committeeTermLimit : Option UInt64 := none
  govActionLifetime : Option UInt64 := none
  govActionDeposit : Option UInt64 := none
  drepDeposit : Option UInt64 := none
  drepActivity : Option UInt64 := none
  minFeeRefScriptCostPerByte : Option UnitInterval := none
deriving DecidableEq, Repr

/-- Take over the new values; what the update does not mention stays. -/
def ProtocolParameters.applyUpdate (update : ProtocolParameterUpdate)
    (params : ProtocolParameters) : ProtocolParameters where
  minFeeA := update.minFeeA.getD params.minFeeA
  minFeeB := update.minFeeB.getD params.minFeeB
  maxBlockBodySize := update.maxBlockBodySize.getD params.maxBlockBodySize
  maxTxSize := update.maxTxSize.getD params.maxTxSize
  maxBlockHeaderSize := update.maxBlockHeaderSize.getD params.maxBlockHeaderSize
  keyDeposit := update.keyDeposit.getD params.keyDeposit
  poolDeposit := update.poolDeposit.getD params.poolDeposit
  eMax := update.eMax.getD params.eMax
  nOpt := update.nOpt.getD params.nOpt
  a0 := update.a0.getD params.a0
  rho := update.rho.getD params.rho
  tau := update.tau.getD params.tau
  d := update.d.or params.d
  extraEntropy := update.extraEntropy.or params.extraEntropy
  protocolVersion := update.protocolVersion.or params.protocolVersion
  minUtxoValue := update.minUtxoValue.or params.minUtxoValue
  minPoolCost := update.minPoolCost.getD params.minPoolCost
  coinsPerUtxoByte := update.coinsPerUtxoByte.or params.coinsPerUtxoByte
  costModels := update.costModels.or params.costModels
  priceMem := update.priceMem.or params.priceMem
  priceStep := update.priceStep.or params.priceStep
  maxTxExUnits := update.maxTxExUnits.or params.maxTxExUnits
  maxBlockExUnits := update.maxBlockExUnits.or params.maxBlockExUnits
  maxValSize := update.maxValSize.or params.maxValSize
  collateralPercentage := update.collateralPercentage.or params.collateralPercentage
  maxCollateralInputs := update.maxCollateralInputs.or params.maxCollateralInputs
  poolVotingThresholds := update.poolVotingThresholds.or params.poolVotingThresholds
  drepVotingThresholds := update.drepVotingThresholds.or params.drepVotingThresholds
  minCommitteeSize := update.minCommitteeSize.or params.minCommitteeSize
  committeeTermLimit := update.committeeTermLimit.or params.committeeTermLimit
  govActionLifetime := update.govActionLifetime.or params.govActionLifetime
  govActionDeposit := update.govActionDeposit.or params.govActionDeposit
  drepDeposit := update.drepDeposit.or params.drepDeposit
  drepActivity := update.drepActivity.or params.drepActivity
  minFeeRefScriptCostPerByte :=
    update.minFeeRefScriptCostPerByte.or params.minFeeRefScriptCostPerByte

namespace ProtocolParameterUpdate

/-- The number of entries of an update; both prices are one entry, counted by the first. -/
def fieldCount (update : ProtocolParameterUpdate) : Nat :=
  ([update.minFeeA.isSome, update.minFeeB.isSome, update.maxBlockBodySize.isSome,
    update.maxTxSize.isSome, update.maxBlockHeaderSize.isSome, update.keyDeposit.isSome,
    update.poolDeposit.isSome, update.eMax.isSome, update.nOpt.isSome, update.a0.isSome,
    update.rho.isSome, update.tau.isSome, update.d.isSome, update.extraEntropy.isSome,
    update.protocolVersion.isSome, update.minUtxoValue.isSome, update.minPoolCost.isSome,
    update.coinsPerUtxoByte.isSome, update.costModels.isSome, update.priceMem.isSome,
    update.maxTxExUnits.isSome, update.maxBlockExUnits.isSome, update.maxValSize.isSome,
    update.collateralPercentage.isSome, update.maxCollateralInputs.isSome,
    update.poolVotingThresholds.isSome, update.drepVotingThresholds.isSome,
    update.minCommitteeSize.isSome, update.committeeTermLimit.isSome,
    update.govActionLifetime.isSome, update.govActionDeposit.isSome, update.drepDeposit.isSome,
    update.drepActivity.isSome, update.minFeeRefScriptCostPerByte.isSome]).count true

end ProtocolParameterUpdate

/-! ## Groups of parameters -/

/-- The groups of parameters that an update touches. -/
structure ConwayModifiedPParamGroups where
  network : Bool
  economic : Bool
  technical : Bool
  gov : Bool
  security : Bool
deriving DecidableEq, Repr

def ConwayModifiedPParamGroups.hasDrepGroup (groups : ConwayModifiedPParamGroups) : Bool :=
  groups.network || groups.economic || groups.technical || groups.gov

variable (update : ProtocolParameterUpdate) (genDelegs : KeyedMap Hash28 GenesisDelegationState)

def conwayModifiedPparamGroups : ConwayModifiedPParamGroups :=
  let economicSecurity := update.minFeeA.isSome || update.minFeeB.isSome ||
    update.coinsPerUtxoByte.isSome || update.minFeeRefScriptCostPerByte.isSome
  let networkSecurity := update.maxBlockBodySize.isSome || update.maxTxSize.isSome ||
    update.maxBlockHeaderSize.isSome || update.maxBlockExUnits.isSome || update.maxValSize.isSome
  let network := update.maxTxExUnits.isSome || update.maxCollateralInputs.isSome
  let economic := update.keyDeposit.isSome || update.poolDeposit.isSome || update.rho.isSome ||
    update.tau.isSome || update.minPoolCost.isSome || update.priceMem.isSome ||
    update.priceStep.isSome || update.minUtxoValue.isSome
  let technical := update.eMax.isSome || update.nOpt.isSome || update.a0.isSome ||
    update.collateralPercentage.isSome || update.costModels.isSome
  let gov := update.poolVotingThresholds.isSome || update.drepVotingThresholds.isSome ||
    update.minCommitteeSize.isSome || update.committeeTermLimit.isSome ||
    update.govActionLifetime.isSome || update.drepDeposit.isSome || update.drepActivity.isSome
  let govSecurity := update.govActionDeposit.isSome
  { network := networkSecurity || network
    economic := economicSecurity || economic
    technical := technical
    gov := gov || govSecurity
    security := economicSecurity || networkSecurity || govSecurity ||
      update.protocolVersion.isSome }

def conwayParameterChangeHasSpoSecurityVoteGroup : Bool :=
  (conwayModifiedPparamGroups update).security

/-- The larger threshold; the one chosen before wins a tie. -/
def largerThreshold (selected : Option UnitInterval) (candidate : UnitInterval) :
    Option UnitInterval :=
  match selected with
  | none => some candidate
  | some current =>
    if candidate.numerator.toNat * current.denominator.toNat ≤
        current.numerator.toNat * candidate.denominator.toNat then some current
    else some candidate

/-- The largest threshold of the groups that an update touches. -/
def conwayDrepParameterChangeThreshold (thresholds : DRepVotingThresholds) : Option UnitInterval :=
  let groups := conwayModifiedPparamGroups update
  let candidates :=
    [(groups.network, thresholds.ppNetworkGroup), (groups.economic, thresholds.ppEconomicGroup),
      (groups.technical, thresholds.ppTechnicalGroup), (groups.gov, thresholds.ppGovGroup)]
  if groups.hasDrepGroup then
    ((candidates.filter (·.1)).map (·.2)).foldl largerThreshold none
  else none

/-! ## Updates voted for by the genesis keys -/

/-- The updates that wait, by epoch and genesis key. -/
abbrev PendingPparamUpdates := KeyedMap EpochNo (KeyedMap Hash28 ProtocolParameterUpdate)

/-- Count one more vote. -/
def countVote (counts : List (ProtocolParameterUpdate × Nat))
    (proposal : ProtocolParameterUpdate) : List (ProtocolParameterUpdate × Nat) :=
  if counts.any (·.1 = proposal) then
    counts.map fun entry => if entry.1 = proposal then (entry.1, entry.2 + 1) else entry
  else counts ++ [(proposal, 1)]

/-- The last of the entries with the most votes.  Which of several such entries it is does not
matter: two of them cannot both reach the quorum. -/
def mostVotes (counts : List (ProtocolParameterUpdate × Nat)) :
    Option (ProtocolParameterUpdate × Nat) :=
  counts.foldl (fun best entry =>
    if best.any fun other => entry.2 < other.2 then best else some entry) none

/-- The update that more than half of the genesis keys want for an epoch. -/
def winningPparamUpdate (proposals : KeyedMap Hash28 ProtocolParameterUpdate) :
    Option ProtocolParameterUpdate :=
  let valid := (proposals.entries.filter fun entry => (genDelegs.lookup entry.1).isSome).map
    (·.2)
  let quorum := genDelegs.entries.length / 2 + 1
  ((mostVotes (valid.foldl countVote [])).filter fun best => quorum ≤ best.2).map (·.1)

/-- Adopt the update of one epoch, if there is one, and forget it and the earlier ones. -/
def applyPendingPparamUpdates (epoch : EpochNo) (params : Option ProtocolParameters)
    (pending : PendingPparamUpdates) :
    Option ProtocolParameters × PendingPparamUpdates × Nat :=
  let remaining := KeyedMap.keep (fun later _ => epoch < later) pending
  match (pending.lookup epoch).bind (winningPparamUpdate genDelegs) with
  | some update => (some ((params.getD {}).applyUpdate update), remaining, update.fieldCount)
  | none => (params, remaining, 0)

/-- Adopt the updates of all epochs up to the new one, earlier epochs first. -/
def applyDuePendingPparamUpdates (epoch : EpochNo) (params : Option ProtocolParameters)
    (pending : PendingPparamUpdates) :
    Option ProtocolParameters × PendingPparamUpdates × Nat :=
  ((pending.keys.filter (· ≤ epoch)).insertionSort (· ≤ ·)).foldl (fun result due =>
    let step := applyPendingPparamUpdates genDelegs due result.1 result.2.1
    (step.1, step.2.1, result.2.2 + step.2.2)) (params, pending, 0)

end Yggdrasil.Ledger
