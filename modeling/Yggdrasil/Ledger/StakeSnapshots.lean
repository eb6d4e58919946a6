import Yggdrasil.Ledger.Governance

/-!
# Stake snapshots

The stake of every credential at an epoch boundary, what it gives to pools and representatives,
and the three snapshots that rotate (`stake.rs`).  Sums written with `+=` wrap.  The keys of the
pools in a distribution are left out: leader election reads them, no rule here does.
-/

namespace Yggdrasil.Ledger

open Library

abbrev IndividualStake := KeyedMap StakeCredential UInt64

namespace IndividualStake

def get (stake : IndividualStake) (credential : StakeCredential) : UInt64 :=
  (stake.lookup credential).getD 0

def add (credential : StakeCredential) (amount : UInt64) (stake : IndividualStake) :
    IndividualStake :=
  KeyedMap.upsert credential 0 (· + amount) stake

end IndividualStake

abbrev Delegations := KeyedMap StakeCredential PoolKeyHash

structure StakeSnapshot where
  stake : IndividualStake
  delegations : Delegations
  poolParams : KeyedMap PoolKeyHash PoolParams

def StakeSnapshot.empty : StakeSnapshot := ⟨∅, ∅, ∅⟩

/-- The stake of each pool and the stake of all of them. -/
structure PoolStakeDistribution where
  poolStakes : KeyedMap PoolKeyHash UInt64
  totalStake : UInt64

namespace PoolStakeDistribution

def poolStake (distribution : PoolStakeDistribution) (pool : PoolKeyHash) : UInt64 :=
  (distribution.poolStakes.lookup pool).getD 0

def totalActiveStake (distribution : PoolStakeDistribution) : UInt64 := distribution.totalStake

end PoolStakeDistribution

/-- What a snapshot gives to its pools; delegations to unknown pools do not count. -/
def StakeSnapshot.poolStakeDistribution (snapshot : StakeSnapshot) : PoolStakeDistribution :=
  snapshot.delegations.entries.foldl (fun distribution entry =>
    if (snapshot.poolParams.lookup entry.2).isNone then distribution
    else if snapshot.stake.get entry.1 = 0 then distribution
    else
      { poolStakes := KeyedMap.upsert entry.2 0 (· + snapshot.stake.get entry.1)
          distribution.poolStakes
        totalStake := saturatingAdd distribution.totalStake (snapshot.stake.get entry.1) })
    ⟨∅, 0⟩

/-- The rotating snapshots with the fees of this and of the previous epoch. -/
structure StakeSnapshots where
  mark : StakeSnapshot
  set : StakeSnapshot
  go : StakeSnapshot
  feePot : UInt64
  previousFeePot : UInt64

namespace StakeSnapshots

def new : StakeSnapshots := ⟨.empty, .empty, .empty, 0, 0⟩

/-- Take a new snapshot in and close the fees of the epoch. -/
def rotate (newMark : StakeSnapshot) (snapshots : StakeSnapshots) : StakeSnapshots where
  mark := newMark
  set := snapshots.mark
  go := snapshots.set
  feePot := 0
  previousFeePot := snapshots.feePot

def accumulateFees (fees : UInt64) (snapshots : StakeSnapshots) : StakeSnapshots :=
  { snapshots with feePot := saturatingAdd snapshots.feePot fees }

end StakeSnapshots

/-! ## Snapshots of the live state -/

def StakeCredential.rank : StakeCredential → Nat
  | .addrKeyHash hash => hash.toNat
  | .scriptHash hash => 2 ^ 224 + hash.toNat

/-- The credential registered at a place; the last one in key order, should there be several. -/
def credentialAtPointer (credentials : StakeCredentials) (pointer : UInt64 × UInt64 × UInt64) :
    Option StakeCredential :=
  ((credentials.entries.filter fun entry => entry.2.registrationPtr = some pointer).map
    (·.1)).argmax StakeCredential.rank

/-- The credential that the stake of an output counts for. -/
def stakedBy (credentials : StakeCredentials) (output : MultiEraTxOut) : Option StakeCredential :=
  match Address.fromBytes output.address with
  | some (.base _ _ staking) => if credentials.isRegistered staking then some staking else none
  | some (.pointer _ _ slot txIndex certIndex) =>
    credentialAtPointer credentials (slot, txIndex, certIndex)
  | _ => none

/-- The stake in the outputs and the reward accounts. -/
def computeStakeSnapshot (utxo : MultiEraUtxo) (credentials : StakeCredentials)
    (accounts : RewardAccounts) (pools : PoolState) : StakeSnapshot :=
  let inOutputs := utxo.entries.foldl (fun stake entry =>
    match stakedBy credentials entry.2 with
    | some credential => IndividualStake.add credential entry.2.coin stake
    | none => stake) (∅ : IndividualStake)
  { stake := accounts.entries.foldl (fun stake entry =>
      if 0 < entry.2.balance ∧ credentials.isRegistered entry.1.credential then
        IndividualStake.add entry.1.credential entry.2.balance stake
      else stake) inOutputs
    delegations := credentials.entries.foldl (fun delegations entry =>
      match entry.2.delegatedPool with
      | some pool => delegations.insert entry.1 pool
      | none => delegations) ∅
    poolParams := pools.entries.entries.foldl (fun params entry =>
      params.insert entry.1 entry.2.params) ∅ }

/-! ## Weights of votes -/

/-- Count the deposit of one proposal. -/
def addProposalDepositOf {Update : Type} (deposits : KeyedMap StakeCredential UInt64)
    (proposal : ProposalProcedure Update) : KeyedMap StakeCredential UInt64 :=
  if proposal.deposit = 0 then deposits
  else
    match RewardAccount.fromBytes proposal.rewardAccount with
    | some account => KeyedMap.upsert account.credential 0 (· + proposal.deposit) deposits
    | none => deposits

/-- The deposits of pending proposals, by the credential that gets them back. -/
def computeProposalDepositsPerCredential {Update : Type} (actions : GovernanceActions Update) :
    KeyedMap StakeCredential UInt64 :=
  (actions.entries.map (·.2.proposal)).foldl addProposalDepositOf ∅

/-- The stake and deposits delegated to each representative. -/
def computeDrepStakeDistribution (snapshot : StakeSnapshot) (credentials : StakeCredentials)
    (proposalDeposits : KeyedMap StakeCredential UInt64) : KeyedMap DRep UInt64 :=
  credentials.entries.foldl (fun stakes entry =>
    match entry.2.delegatedDrep with
    | some drep =>
      let amount := saturatingAdd (snapshot.stake.get entry.1)
        ((proposalDeposits.lookup entry.1).getD 0)
      if 0 < amount then KeyedMap.upsert drep 0 (· + amount) stakes else stakes
    | none => stakes) ∅

/-- Add an amount to the stake of a pool that is in the distribution. -/
def PoolStakeDistribution.augment (pool : PoolKeyHash) (amount : UInt64)
    (distribution : PoolStakeDistribution) : PoolStakeDistribution :=
  if (distribution.poolStakes.lookup pool).isSome then
    { poolStakes := KeyedMap.modify pool (saturatingAdd · amount) distribution.poolStakes
      totalStake := saturatingAdd distribution.totalStake amount }
  else distribution

/-- Add the deposits of pending proposals to the pools of their credentials. -/
def augmentPoolDistWithProposalDeposits (credentials : StakeCredentials)
    (proposalDeposits : KeyedMap StakeCredential UInt64) (distribution : PoolStakeDistribution) :
    PoolStakeDistribution :=
  (proposalDeposits.entries.filter (·.2 ≠ 0)).foldl (fun distribution entry =>
    match (credentials.lookup entry.1).bind (·.delegatedPool) with
    | some pool => distribution.augment pool entry.2
    | none => distribution) distribution

end Yggdrasil.Ledger
