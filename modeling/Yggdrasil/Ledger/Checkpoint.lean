import Yggdrasil.Ledger.CallFrame

/-!
# Checkpoints of the ledger state

A checkpoint saves 24 fields of the ledger state (`state/cbor.rs`).  Decoding fills in the others
with defaults, and `rehydrate_runtime_genesis_from` takes some of them from the state at genesis.
The parameters of the previous epoch, the scheduled genesis delegations and the slot at which
Shelley began are never filled in.

The encoding of the 24 fields stays abstract.  The two fields that only queries read, the last
block number and the last protocol version, are not part of the model's state.
-/

namespace Yggdrasil.Ledger

open Library

/-! ## Saving and restoring -/

/-- The fields of a checkpoint, in the order of its array. -/
structure SavedState where
  currentEra : Era
  tip : Point
  expectedNetworkId : Option UInt8
  governanceActions : Actions
  poolState : PoolState
  stakeCredentials : StakeCredentials
  committeeState : CommitteeState
  drepState : DrepState
  rewardAccounts : RewardAccounts
  multiEraUtxo : MultiEraUtxo
  shelleyUtxo : ShelleyUtxo
  protocolParams : Option ProtocolParameters
  depositPot : DepositPot
  accounting : AccountingState
  currentEpoch : EpochNo
  enactState : EnactState
  genDelegs : KeyedMap Hash28 GenesisDelegationState
  pendingPparamUpdates : PendingPparamUpdates
  utxosDonation : UInt64
  instantaneousRewards : InstantaneousRewards
  genesisUpdateQuorum : UInt64
  numDormantEpochs : UInt64
  blocksMade : KeyedMap PoolKeyHash UInt64
  blocksMadePrev : KeyedMap PoolKeyHash UInt64

def save (state : BoundaryState) : SavedState where
  currentEra := state.currentEra
  tip := state.tip
  expectedNetworkId := state.rest.expectedNetworkId
  governanceActions := state.rest.governanceActions
  poolState := state.rest.poolState
  stakeCredentials := state.rest.stakeCredentials
  committeeState := state.rest.committeeState
  drepState := state.rest.drepState
  rewardAccounts := state.rest.rewardAccounts
  multiEraUtxo := state.multiEraUtxo
  shelleyUtxo := state.rest.other.shelleyUtxo
  protocolParams := state.protocolParams
  depositPot := state.rest.depositPot
  accounting := state.rest.accounting
  currentEpoch := state.rest.currentEpoch
  enactState := state.rest.other.enactState
  genDelegs := state.rest.genDelegs
  pendingPparamUpdates := state.rest.other.pendingPparamUpdates
  utxosDonation := state.rest.utxosDonation
  instantaneousRewards := state.rest.instantaneousRewards
  genesisUpdateQuorum := state.rest.other.genesisUpdateQuorum
  numDormantEpochs := state.rest.numDormantEpochs
  blocksMade := state.rest.other.blocksMade
  blocksMadePrev := state.rest.other.blocksMadePrev

/-- The decoded state: what was not saved has a default. -/
def SavedState.load (saved : SavedState) : BoundaryState where
  tip := saved.tip
  currentEra := saved.currentEra
  protocolParams := saved.protocolParams
  genDelegs := genesisDelegates saved.genDelegs
  multiEraUtxo := saved.multiEraUtxo
  rest :=
    { poolState := saved.poolState
      stakeCredentials := saved.stakeCredentials
      committeeState := saved.committeeState
      drepState := saved.drepState
      rewardAccounts := saved.rewardAccounts
      depositPot := saved.depositPot
      genDelegs := saved.genDelegs
      futureGenDelegs := ∅
      currentEpoch := saved.currentEpoch
      expectedNetworkId := saved.expectedNetworkId
      governanceActions := saved.governanceActions
      accounting := saved.accounting
      utxosDonation := saved.utxosDonation
      numDormantEpochs := saved.numDormantEpochs
      instantaneousRewards := saved.instantaneousRewards
      stabilityWindow := none
      slotsPerEpoch := 0
      byronShelleyTransition := none
      pendingShelleyGenesisUtxo := none
      pendingShelleyGenesisStake := none
      pendingShelleyGenesisPools := none
      pendingShelleyGenesisDelegs := none
      other :=
        { shelleyUtxo := saved.shelleyUtxo
          genesisUpdateQuorum := saved.genesisUpdateQuorum
          previousProtocolParams := none
          pendingPparamUpdates := saved.pendingPparamUpdates
          blocksMade := saved.blocksMade
          blocksMadePrev := saved.blocksMadePrev
          maxLovelaceSupply := 0
          activeSlotCoeff := ⟨0, 1⟩
          enactState := saved.enactState } }

/-- The bundles of the Shelley genesis that wait for its activation. -/
structure PendingGenesis where
  utxo : Option (List (ShelleyTxIn × Bytes × UInt64))
  stake : Option (List (StakeCredential × PoolKeyHash))
  pools : Option (List PoolParams)
  delegs : Option (KeyedMap Hash28 GenesisDelegationState)

namespace PendingGenesis

def of (state : BoundaryState) : PendingGenesis where
  utxo := state.rest.pendingShelleyGenesisUtxo
  stake := state.rest.pendingShelleyGenesisStake
  pools := state.rest.pendingShelleyGenesisPools
  delegs := state.rest.pendingShelleyGenesisDelegs

end PendingGenesis

/-- Take the configuration from the base, with the given pending genesis. -/
def rehydrateWith (pending : PendingGenesis) (base state : BoundaryState) : BoundaryState :=
  { state with
    rest := { state.rest with
      stabilityWindow := base.rest.stabilityWindow
      slotsPerEpoch := base.rest.slotsPerEpoch
      pendingShelleyGenesisUtxo := pending.utxo
      pendingShelleyGenesisStake := pending.stake
      pendingShelleyGenesisPools := pending.pools
      pendingShelleyGenesisDelegs := pending.delegs
      other := { state.rest.other with
        maxLovelaceSupply := base.rest.other.maxLovelaceSupply
        activeSlotCoeff := base.rest.other.activeSlotCoeff } } }

def rehydrateRuntimeGenesisFrom (base state : BoundaryState) : BoundaryState :=
  rehydrateWith (if state.currentEra = .byron then .of base else .of state) base state

/-! ## Epoch boundaries -/

/-- An epoch boundary with the state it leaves: one that fails has set the epoch. -/
def runBoundary (newEpoch : EpochNo) (performance : KeyedMap PoolKeyHash UnitInterval)
    (snapshots : StakeSnapshots) (state : BoundaryState) : BoundaryState × Result Unit :=
  match boundaryRewards performance state snapshots with
  | .ok dist => ((boundaryRun newEpoch state snapshots dist).final, .ok ())
  | .error failure =>
    ({ state with rest := { state.rest with currentEpoch := newEpoch } }, .error failure)

end Yggdrasil.Ledger
