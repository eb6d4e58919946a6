import Yggdrasil.Ledger.Fees

/-!
# Registries of the ledger

The parts of the ledger state that certificates and epoch boundaries move: stake credentials,
pools, reward accounts, representatives, the committee, genesis delegations, instantaneous
rewards and the deposit pot (`crates/ledger/src/state/`), with the operations of their
containers.

A `BTreeMap` is a keyed map.  Where the source takes the first or last key that satisfies a
test, the model takes the least or greatest one, so nothing depends on the order of the entries.
Relays and the hash of pool metadata are left out: no modelled rule reads them.
-/

namespace Yggdrasil.Ledger

open Library KeyedMap

abbrev PoolKeyHash := Hash28
abbrev VrfKeyHash := Hash32

/-- A link to data outside the chain. -/
structure Anchor where
  url : Bytes
  dataHash : Hash32
deriving DecidableEq, Repr

/-! ## Stake credentials -/

/-- A registered stake credential. -/
structure StakeCredentialState where
  delegatedPool : Option PoolKeyHash
  delegatedDrep : Option DRep
  /-- The deposit paid at registration. -/
  deposit : UInt64
  /-- Slot, transaction and certificate of the registration. -/
  registrationPtr : Option (UInt64 × UInt64 × UInt64)
deriving DecidableEq, Repr

abbrev StakeCredentials := KeyedMap StakeCredential StakeCredentialState

namespace StakeCredentials

def isRegistered (credentials : StakeCredentials) (credential : StakeCredential) : Bool :=
  (credentials.lookup credential).isSome

/-- Forget the votes delegated to one representative. -/
def clearDrepDelegation (drep : DRep) (credentials : StakeCredentials) : StakeCredentials :=
  mapValues (fun state =>
    if state.delegatedDrep = some drep then { state with delegatedDrep := none } else state)
    credentials

/-- Forget the delegations to retired pools. -/
def clearPoolDelegations (retired : List PoolKeyHash) (credentials : StakeCredentials) :
    StakeCredentials :=
  mapValues (fun state =>
    if state.delegatedPool.any (· ∈ retired) then { state with delegatedPool := none } else state)
    credentials

end StakeCredentials

/-! ## Reward accounts -/

structure RewardAccountState where
  balance : UInt64
  delegatedPool : Option PoolKeyHash
deriving DecidableEq, Repr

abbrev RewardAccounts := KeyedMap RewardAccount RewardAccountState

namespace RewardAccounts

variable (accounts : RewardAccounts) (credential : StakeCredential)

/-- The networks on which a credential has an account. -/
def networksOf : List UInt8 := (accounts.keys.filter (·.credential = credential)).map (·.network)

/-- The first account of a credential in key order. -/
def findAccountByCredential : Option RewardAccount :=
  (accounts.networksOf credential).min?.map fun network => ⟨network, credential⟩

/-- The last account of a credential in key order. -/
def lastAccountOf : Option RewardAccount :=
  (accounts.networksOf credential).max?.map fun network => ⟨network, credential⟩

/-- Add to the balance of an account that is there. -/
def credit (account : RewardAccount) (amount : UInt64) (accounts : RewardAccounts) :
    RewardAccounts :=
  modify account (fun state =>
    { state with balance := saturatingAdd state.balance amount }) accounts

/-- The balances of a credential, added with wrap-around. -/
def balanceOf : UInt64 :=
  (accounts.entries.filter fun entry => entry.1.credential = credential).foldl
    (fun total entry => total + entry.2.balance) 0

end RewardAccounts

/-! ## Pools -/

structure PoolMetadata where
  url : Bytes
deriving DecidableEq, Repr

structure PoolParams where
  operator : PoolKeyHash
  vrfKeyhash : VrfKeyHash
  pledge : UInt64
  cost : UInt64
  margin : UnitInterval
  rewardAccount : RewardAccount
  poolOwners : List Hash28
  poolMetadata : Option PoolMetadata
deriving DecidableEq, Repr

structure RegisteredPool where
  params : PoolParams
  retiringEpoch : Option EpochNo
  /-- The deposit paid at registration. -/
  deposit : UInt64
deriving DecidableEq, Repr

/-- The registered pools, and parameters staged for the next epoch. -/
structure PoolState where
  entries : KeyedMap PoolKeyHash RegisteredPool
  futureParams : KeyedMap PoolKeyHash PoolParams

namespace PoolState

def isRegistered (pools : PoolState) (operator : PoolKeyHash) : Bool :=
  (pools.entries.lookup operator).isSome

/-- Register a pool; a pool that is there keeps its deposit, is no longer retiring, and takes
the new parameters at the next epoch. -/
def registerWithDeposit (params : PoolParams) (deposit : UInt64) (pools : PoolState) : PoolState :=
  if pools.isRegistered params.operator then
    { entries := modify params.operator (fun pool => { pool with retiringEpoch := none })
        pools.entries
      futureParams := pools.futureParams.insert params.operator params }
  else
    { pools with entries := pools.entries.insert params.operator ⟨params, none, deposit⟩ }

/-- Mark a pool as retiring. -/
def retire (operator : PoolKeyHash) (epoch : EpochNo) (pools : PoolState) : PoolState :=
  { pools with
    entries := modify operator (fun pool => { pool with retiringEpoch := some epoch })
      pools.entries }

/-- The pool retires at or before the epoch. -/
def retiresBy (epoch : EpochNo) (pool : RegisteredPool) : Bool := pool.retiringEpoch.any (· ≤ epoch)

/-- The pools that retire at or before the epoch. -/
def retiring (epoch : EpochNo) (pools : PoolState) : List (PoolKeyHash × RegisteredPool) :=
  (pools.entries.entries.filter fun entry => retiresBy epoch entry.2).map fun entry =>
    (entry.1, entry.2)

/-- Remove the pools that retire, with their staged parameters. -/
def processRetirements (epoch : EpochNo) (pools : PoolState) : PoolState where
  entries := keep (fun _ pool => !retiresBy epoch pool) pools.entries
  futureParams := eraseAll ((pools.retiring epoch).map Prod.fst) pools.futureParams

/-- The pool that uses a key, staged parameters before current ones. -/
def findPoolByVrfKey (vrfKey : VrfKeyHash) (pools : PoolState) : Option PoolKeyHash :=
  let staged := (pools.futureParams.entries.filter fun entry =>
    entry.2.vrfKeyhash = vrfKey).map (·.1)
  let current := (pools.entries.entries.filter fun entry =>
    (pools.futureParams.lookup entry.1).isNone ∧ entry.2.params.vrfKeyhash = vrfKey).map (·.1)
  (staged.argmin BitVec.toNat).or (current.argmin BitVec.toNat)

/-- Take over the staged parameters of the pools that are still there. -/
def adoptFutureParams (pools : PoolState) : PoolState where
  entries := mapEntries (fun operator pool =>
    { pool with params := (pools.futureParams.lookup operator).getD pool.params }) pools.entries
  futureParams := ∅

end PoolState

/-! ## Representatives and committee -/

structure RegisteredDrep where
  anchor : Option Anchor
  deposit : UInt64
  lastActiveEpoch : Option EpochNo
deriving DecidableEq, Repr

abbrev DrepState := KeyedMap DRep RegisteredDrep

def isBuiltinDrep : DRep → Bool
  | .alwaysAbstain | .alwaysNoConfidence => true
  | _ => false

def DrepState.isRegistered (dreps : DrepState) (drep : DRep) : Bool := (dreps.lookup drep).isSome

/-- The representatives who have not acted for longer than the window. -/
def DrepState.inactiveDreps (epoch : EpochNo) (drepActivity : UInt64) (dreps : DrepState) :
    List DRep :=
  (dreps.entries.filter fun entry =>
    entry.2.lastActiveEpoch.any fun last => saturatingAdd last drepActivity < epoch).map (·.1)

/-- Forget the votes delegated to representatives who are not registered. -/
def StakeCredentials.cleanupDanglingDrepDelegations (dreps : DrepState)
    (credentials : StakeCredentials) : StakeCredentials :=
  mapValues (fun state =>
    if state.delegatedDrep.any fun drep => !isBuiltinDrep drep && !dreps.isRegistered drep then
      { state with delegatedDrep := none }
    else state) credentials

/-- What a committee member has done with the seat. -/
inductive CommitteeAuthorization where
  | committeeHotCredential (credential : StakeCredential)
  | committeeMemberResigned (anchor : Option Anchor)
deriving DecidableEq, Repr

structure CommitteeMemberState where
  authorization : Option CommitteeAuthorization
  /-- The last epoch of the term; absent for a credential that is no member. -/
  expiresAt : Option UInt64
deriving DecidableEq, Repr

def CommitteeMemberState.isResigned (member : CommitteeMemberState) : Bool :=
  match member.authorization with
  | some (.committeeMemberResigned _) => true
  | _ => false

def CommitteeMemberState.hotCredential (member : CommitteeMemberState) : Option StakeCredential :=
  match member.authorization with
  | some (.committeeHotCredential credential) => some credential
  | _ => none

def CommitteeMemberState.isEnactedMember (member : CommitteeMemberState) : Bool :=
  member.expiresAt.isSome

def CommitteeMemberState.isExpired (currentEpoch : EpochNo) (member : CommitteeMemberState) :
    Bool :=
  member.expiresAt.any (· < currentEpoch)

abbrev CommitteeState := KeyedMap StakeCredential CommitteeMemberState

namespace CommitteeState

/-- Seat a member for a term; what the credential has authorized stays. -/
def registerWithTerm (credential : StakeCredential) (expiresAt : UInt64)
    (committee : CommitteeState) : CommitteeState :=
  upsert credential ⟨none, none⟩ (fun member => { member with expiresAt := some expiresAt })
    committee

def clearMembership (credential : StakeCredential) (committee : CommitteeState) : CommitteeState :=
  modify credential (fun member => { member with expiresAt := none }) committee

def clearAllMembership (committee : CommitteeState) : CommitteeState :=
  mapValues (fun member => { member with expiresAt := none }) committee

def pruneNonMembers (committee : CommitteeState) : CommitteeState :=
  keep (fun _ member => member.expiresAt.isSome) committee

end CommitteeState

structure GenesisDelegationState where
  delegate : Hash28
  vrf : Hash32
deriving DecidableEq, Repr

/-! ## Pots -/

/-- What a deposit is paid for. -/
inductive DepositKind where
  | key
  | pool
  | drep
  | proposal
deriving DecidableEq, Repr

/-- What is locked in deposits. -/
structure DepositPot where
  keyDeposits : UInt64
  poolDeposits : UInt64
  drepDeposits : UInt64
  proposalDeposits : UInt64
deriving DecidableEq, Repr

namespace DepositPot

/-- The sum of all deposits, saturating. -/
def total (pot : DepositPot) : UInt64 :=
  saturatingAdd (saturatingAdd (saturatingAdd pot.keyDeposits pot.poolDeposits) pot.drepDeposits)
    pot.proposalDeposits

/-- The deposits of one kind. -/
def deposits (pot : DepositPot) : DepositKind → UInt64
  | .key => pot.keyDeposits
  | .pool => pot.poolDeposits
  | .drep => pot.drepDeposits
  | .proposal => pot.proposalDeposits

/-- Replace the deposits of one kind. -/
def setDeposits (pot : DepositPot) (amount : UInt64) : DepositKind → DepositPot
  | .key => { pot with keyDeposits := amount }
  | .pool => { pot with poolDeposits := amount }
  | .drep => { pot with drepDeposits := amount }
  | .proposal => { pot with proposalDeposits := amount }

/-- Add to one kind, saturating: the pattern of `add_*_deposit`. -/
def addDeposit (kind : DepositKind) (amount : UInt64) (pot : DepositPot) : DepositPot :=
  pot.setDeposits (saturatingAdd (pot.deposits kind) amount) kind

/-- Take from one kind, saturating: the pattern of `return_*_deposit`. -/
def returnDeposit (kind : DepositKind) (amount : UInt64) (pot : DepositPot) : DepositPot :=
  pot.setDeposits (saturatingSub (pot.deposits kind) amount) kind

def addKeyDeposit : UInt64 → DepositPot → DepositPot := addDeposit .key
def returnKeyDeposit : UInt64 → DepositPot → DepositPot := returnDeposit .key
def addPoolDeposit : UInt64 → DepositPot → DepositPot := addDeposit .pool
def returnPoolDeposit : UInt64 → DepositPot → DepositPot := returnDeposit .pool
def addDrepDeposit : UInt64 → DepositPot → DepositPot := addDeposit .drep
def returnDrepDeposit : UInt64 → DepositPot → DepositPot := returnDeposit .drep
def addProposalDeposit : UInt64 → DepositPot → DepositPot := addDeposit .proposal
def returnProposalDeposit : UInt64 → DepositPot → DepositPot := returnDeposit .proposal

@[simp] theorem deposits_setDeposits (pot : DepositPot) (amount : UInt64)
    (kind other : DepositKind) :
    (pot.setDeposits amount kind).deposits other =
      if other = kind then amount else pot.deposits other := by
  cases kind <;> cases other <;> rfl

/-- The deposits of all kinds as a number. -/
def lovelace (pot : DepositPot) : Nat :=
  pot.keyDeposits.toNat + pot.poolDeposits.toNat + pot.drepDeposits.toNat +
    pot.proposalDeposits.toNat

theorem lovelace_setDeposits (pot : DepositPot) (amount : UInt64) (kind : DepositKind) :
    (pot.setDeposits amount kind).lovelace + (pot.deposits kind).toNat =
      pot.lovelace + amount.toNat := by
  cases kind <;> simp only [lovelace, setDeposits, deposits] <;> omega

end DepositPot

structure AccountingState where
  treasury : UInt64
  reserves : UInt64
deriving DecidableEq, Repr

/-- Instantaneous rewards collected since the last epoch boundary. -/
structure InstantaneousRewards where
  irReserves : KeyedMap StakeCredential Int64
  irTreasury : KeyedMap StakeCredential Int64
  deltaReserves : Int64
  deltaTreasury : Int64

/-- The rewards collected against a pot. -/
def InstantaneousRewards.ofPot (rewards : InstantaneousRewards) :
    MirPot → KeyedMap StakeCredential Int64
  | .reserves => rewards.irReserves
  | .treasury => rewards.irTreasury

/-- The transfer collected for a pot. -/
def InstantaneousRewards.delta (rewards : InstantaneousRewards) : MirPot → Int64
  | .reserves => rewards.deltaReserves
  | .treasury => rewards.deltaTreasury

def AccountingState.ofPot (accounting : AccountingState) : MirPot → UInt64
  | .reserves => accounting.reserves
  | .treasury => accounting.treasury

end Yggdrasil.Ledger
