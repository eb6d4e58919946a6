import Yggdrasil.Ledger.BlockRules
import Yggdrasil.Ledger.Governance

/-!
# Certificates and withdrawals

`apply_certificates_and_withdrawals_with_future` (`state.rs`): a transaction first drains the
accounts it withdraws from, then its certificates change the registries and the deposit pot one
after the other.  The totals of withdrawals, deposits and refunds enter the balance of the
transaction.
-/

namespace Yggdrasil.Ledger

open Library KeyedMap

/-- Where instantaneous rewards go. -/
inductive MirTarget where
  | stakeCredentials (deltas : KeyedMap StakeCredential Int64)
  | sendToOppositePot (coin : UInt64)
deriving DecidableEq

inductive Certificate where
  | accountRegistration (credential : StakeCredential)
  | accountUnregistration (credential : StakeCredential)
  | delegationToStakePool (credential : StakeCredential) (pool : PoolKeyHash)
  | poolRegistration (params : PoolParams)
  | poolRetirement (pool : PoolKeyHash) (epoch : EpochNo)
  | genesisDelegation (genesisHash delegateHash : Hash28) (vrfHash : VrfKeyHash)
  | moveInstantaneousReward (pot : MirPot) (target : MirTarget)
  | accountRegistrationDeposit (credential : StakeCredential) (deposit : UInt64)
  | accountUnregistrationDeposit (credential : StakeCredential) (refund : UInt64)
  | delegationToDrep (credential : StakeCredential) (drep : DRep)
  | delegationToStakePoolAndDrep (credential : StakeCredential) (pool : PoolKeyHash) (drep : DRep)
  | accountRegistrationDelegationToStakePool (credential : StakeCredential) (pool : PoolKeyHash)
      (deposit : UInt64)
  | accountRegistrationDelegationToDrep (credential : StakeCredential) (drep : DRep)
      (deposit : UInt64)
  | accountRegistrationDelegationToStakePoolAndDrep (credential : StakeCredential)
      (pool : PoolKeyHash) (drep : DRep) (deposit : UInt64)
  | committeeAuthorization (coldCredential hotCredential : StakeCredential)
  | committeeResignation (coldCredential : StakeCredential) (anchor : Option Anchor)
  | drepRegistration (credential : StakeCredential) (deposit : UInt64) (anchor : Option Anchor)
  | drepUnregistration (credential : StakeCredential) (refund : UInt64)
  | drepUpdate (credential : StakeCredential) (anchor : Option Anchor)
deriving DecidableEq

namespace Certificate

/-- Certificates that Conway added. -/
def isConwayOnly : Certificate → Bool
  | accountRegistrationDeposit .. | accountUnregistrationDeposit .. | delegationToDrep ..
  | delegationToStakePoolAndDrep .. | accountRegistrationDelegationToStakePool ..
  | accountRegistrationDelegationToDrep ..
  | accountRegistrationDelegationToStakePoolAndDrep .. | committeeAuthorization ..
  | committeeResignation .. | drepRegistration .. | drepUnregistration .. | drepUpdate .. => true
  | _ => false

/-- Certificates that Conway removed. -/
def isPreConwayOnly : Certificate → Bool
  | genesisDelegation .. | moveInstantaneousReward .. => true
  | _ => false

end Certificate

/-- The parts of the ledger state that certificates move. -/
structure CertState where
  poolState : PoolState
  stakeCredentials : StakeCredentials
  committeeState : CommitteeState
  drepState : DrepState
  rewardAccounts : RewardAccounts
  depositPot : DepositPot
  genDelegs : KeyedMap Hash28 GenesisDelegationState
  /-- Delegations that take effect at a later slot. -/
  futureGenDelegs : KeyedMap (SlotNo × Hash28) GenesisDelegationState

structure CertificateValidationContext where
  keyDeposit : UInt64
  poolDeposit : UInt64
  minPoolCost : UInt64
  eMax : UInt64
  currentEpoch : EpochNo
  expectedNetworkId : Option UInt8
  drepDeposit : Option UInt64
  isConway : Bool
  bootstrapPhase : Bool
  postPv10 : Bool
deriving DecidableEq, Repr

structure MirValidationContext where
  currentSlot : SlotNo
  /-- From this slot on the epoch takes no more instantaneous rewards. -/
  mirDeadlineSlot : Option SlotNo
  alonzoMirTransfers : Bool
  accounting : AccountingState
  instantaneousRewards : InstantaneousRewards

/-- What the rule reads besides the state it moves. -/
structure CertEnv (Update : Type) where
  context : CertificateValidationContext
  governanceActions : GovernanceActions Update
  currentSlot : SlotNo
  txIndex : UInt64
  stabilityWindow : Option UInt64
  mirContext : Option MirValidationContext

/-- The state in the middle of a list of certificates, with the totals so far. -/
structure CertProgress extends CertState where
  totalDeposits : UInt64
  totalRefunds : UInt64

namespace CertProgress

/-- Pay a deposit into the pot. -/
def takeDeposit (kind : DepositKind) (amount : UInt64) (progress : CertProgress) : CertProgress :=
  { progress with
    depositPot := progress.depositPot.addDeposit kind amount
    totalDeposits := saturatingAdd progress.totalDeposits amount }

/-- Pay a deposit back out of the pot. -/
def payRefund (kind : DepositKind) (amount : UInt64) (progress : CertProgress) : CertProgress :=
  { progress with
    depositPot := progress.depositPot.returnDeposit kind amount
    totalRefunds := saturatingAdd progress.totalRefunds amount }

end CertProgress

/-! ## Withdrawals -/

/-- Drain the account behind a withdrawal; the amount has to be its balance. -/
def withdraw (accounts : RewardAccounts) (withdrawal : RewardAccount × UInt64) :
    Result RewardAccounts :=
  match accounts.findAccountByCredential withdrawal.1.credential with
  | none => reject (.rewardAccountNotRegistered withdrawal.1)
  | some account => do
    let available := ((accounts.lookup account).map (·.balance)).getD 0
    rejectIf (available < withdrawal.2)
      (.withdrawalExceedsBalance withdrawal.1 withdrawal.2 available)
    rejectIf (withdrawal.2 ≠ available)
      (.withdrawalNotFullDrain withdrawal.1 withdrawal.2 available)
    return modify account (fun state =>
      { state with balance := available - withdrawal.2 }) accounts

/-! ## Stake credentials -/

def registerStakeCredential (credential : StakeCredential) (deposit : UInt64)
    (ptr : UInt64 × UInt64 × UInt64) (credentials : StakeCredentials) : Result StakeCredentials :=
  if credentials.isRegistered credential then
    reject (.stakeCredentialAlreadyRegistered credential)
  else
    .ok (credentials.insert credential ⟨none, none, deposit, some ptr⟩)

def registerRewardAccountForCredential (credential : StakeCredential)
    (expectedNetworkId : Option UInt8) (accounts : RewardAccounts) : RewardAccounts :=
  match expectedNetworkId with
  | none => accounts
  | some network =>
    if (accounts.findAccountByCredential credential).isSome then accounts
    else accounts.insert ⟨network, credential⟩ ⟨0, none⟩

section

variable {Update : Type}

variable (env : CertEnv Update) (credential : StakeCredential)

/-- Register a credential with a deposit; `certIndex` is the place in the transaction. -/
def registerAccount (deposit : UInt64) (certIndex : Nat) (progress : CertProgress) :
    Result CertProgress := do
  let credentials ← registerStakeCredential credential deposit
    (env.currentSlot, env.txIndex, .ofNat certIndex) progress.stakeCredentials
  return CertProgress.takeDeposit .key deposit
    { progress with
      stakeCredentials := credentials
      rewardAccounts := registerRewardAccountForCredential credential
        env.context.expectedNetworkId progress.rewardAccounts }

/-- The start of the Conway certificates that register: the deposit is the parameter, and the
credential is new. -/
def registerAccountWithDeposit (deposit : UInt64) (certIndex : Nat) (progress : CertProgress) :
    Result CertProgress := do
  rejectIf (env.context.isConway ∧ deposit ≠ env.context.keyDeposit)
    (if env.context.postPv10 then .depositIncorrectDELEG deposit env.context.keyDeposit
      else .incorrectDepositDELEG deposit env.context.keyDeposit)
  rejectIf (env.context.isConway ∧ progress.stakeCredentials.isRegistered credential)
    (.stakeCredentialAlreadyRegistered credential)
  if progress.stakeCredentials.isRegistered credential then return progress
  else registerAccount env credential deposit certIndex progress

/-- Remove a credential and its accounts, which have to be empty. -/
def unregisterStakeCredential (progress : CertProgress) : Result CertProgress := do
  rejectIf (¬ progress.stakeCredentials.isRegistered credential)
    (.stakeCredentialNotRegistered credential)
  rejectIf (progress.rewardAccounts.balanceOf credential ≠ 0)
    (.stakeCredentialHasRewards credential (progress.rewardAccounts.balanceOf credential))
  return { progress with
    stakeCredentials := progress.stakeCredentials.erase credential
    rewardAccounts := keep (fun account _ => account.credential ≠ credential)
      progress.rewardAccounts }

/-- What an unregistration in Conway has to ask back: the recorded deposit, or the parameter
where none is recorded. -/
def expectedRefund (progress : CertProgress) : UInt64 :=
  let stored := ((progress.stakeCredentials.lookup credential).map (·.deposit)).getD 0
  if 0 < stored then stored else env.context.keyDeposit

def unregisterAccountWithDeposit (refund : UInt64) (progress : CertProgress) :
    Result CertProgress := do
  let expected := expectedRefund env credential progress
  rejectIf (env.context.isConway ∧ refund ≠ expected)
    (if env.context.postPv10 then .refundIncorrectDELEG refund expected
      else .incorrectKeyDepositRefund refund expected)
  return (← unregisterStakeCredential credential progress).payRefund .key refund

/-- Delegate stake; the credential's accounts remember the pool too. -/
def delegateStakeCredential (pool : PoolKeyHash) (progress : CertProgress) :
    Result CertProgress := do
  rejectIf (¬ progress.poolState.isRegistered pool) (.poolNotRegistered pool)
  rejectIf (¬ progress.stakeCredentials.isRegistered credential)
    (.stakeCredentialNotRegistered credential)
  return { progress with
    stakeCredentials := modify credential (fun state =>
      { state with delegatedPool := some pool }) progress.stakeCredentials
    rewardAccounts := mapEntries (fun account state =>
      if account.credential = credential then { state with delegatedPool := some pool }
      else state) progress.rewardAccounts }

/-- Delegate votes; during the bootstrap phase to anyone. -/
def delegateDrep (drep : DRep) (bootstrapPhase : Bool) (progress : CertProgress) :
    Result CertProgress := do
  rejectIf (¬ progress.stakeCredentials.isRegistered credential)
    (.stakeCredentialNotRegistered credential)
  rejectIf (¬ bootstrapPhase ∧ ¬ isBuiltinDrep drep ∧ ¬ progress.drepState.isRegistered drep)
    (.delegateeDRepNotRegistered drep)
  return { progress with
    stakeCredentials := modify credential (fun state =>
      { state with delegatedDrep := some drep }) progress.stakeCredentials }

end

/-! ## Committee and representatives -/

/-- The pattern of `authorize_committee_hot_credential` and `resign_committee_cold_credential`:
nobody comes back after a resignation, and the credential has or may get a seat. -/
def setCommitteeAuthorization {Update : Type} (env : CertEnv Update)
    (coldCredential : StakeCredential) (authorization : CommitteeAuthorization)
    (progress : CertProgress) : Result CertProgress := do
  let member := progress.committeeState.lookup coldCredential
  rejectIf (member.any (·.isResigned)) (.committeeHasPreviouslyResigned coldCredential)
  rejectIf (¬ member.any (·.expiresAt.isSome) ∧
      ¬ isPotentialFutureMember coldCredential env.governanceActions)
    (.committeeIsUnknown coldCredential)
  return { progress with
    committeeState := progress.committeeState.insert coldCredential
      { member.getD ⟨none, none⟩ with authorization := some authorization } }

def drepFromCredential : StakeCredential → DRep
  | .addrKeyHash hash => .keyHash hash
  | .scriptHash hash => .scriptHash hash

variable (credential : StakeCredential) (context : CertificateValidationContext)

def registerDrep (deposit : UInt64) (anchor : Option Anchor) (progress : CertProgress) :
    Result CertProgress :=
  let drep := drepFromCredential credential
  if progress.drepState.isRegistered drep then reject (.drepAlreadyRegistered drep)
  else .ok { progress with drepState := progress.drepState.insert drep ⟨anchor, deposit, none⟩ }

/-- Remove a representative; the refund is the recorded deposit. -/
def unregisterDrep (refund : UInt64) (progress : CertProgress) : Result CertProgress :=
  let drep := drepFromCredential credential
  match progress.drepState.lookup drep with
  | none => reject (.drepNotRegistered drep)
  | some entry => do
    rejectIf (refund ≠ entry.deposit) (.drepIncorrectRefund refund entry.deposit)
    return { progress with
      drepState := progress.drepState.erase drep
      stakeCredentials := progress.stakeCredentials.clearDrepDelegation drep }

def updateDrep (anchor : Option Anchor) (progress : CertProgress) : Result CertProgress :=
  let drep := drepFromCredential credential
  if progress.drepState.isRegistered drep then
    .ok { progress with
      drepState := modify drep (fun state => { state with anchor := anchor })
        progress.drepState }
  else reject (.drepNotRegistered drep)

/-! ## Pools -/

/-- The first element that stands earlier in the list already. -/
def firstRepeated (seen : List Hash28) : List Hash28 → Option Hash28
  | [] => none
  | owner :: rest => if owner ∈ seen then some owner else firstRepeated (owner :: seen) rest

def checkPoolParams (pools : PoolState) (params : PoolParams) : Result Unit := do
  rejectIf (params.cost < context.minPoolCost) (.poolCostTooLow params.cost context.minPoolCost)
  rejectIf (params.margin.denominator = 0 ∨ params.margin.denominator < params.margin.numerator)
    (.poolMarginInvalid params.margin.numerator params.margin.denominator)
  context.expectedNetworkId.forM fun expected =>
    rejectIf (params.rewardAccount.network ≠ expected)
      (.poolRewardAccountNetworkMismatch params.rewardAccount.network expected)
  params.poolMetadata.forM fun metadata =>
    rejectIf (64 < metadata.url.length) (.poolMetadataUrlTooLong metadata.url.length)
  (firstRepeated [] params.poolOwners).forM fun owner => reject (.duplicatePoolOwner owner)
  if context.postPv10 then
    (pools.findPoolByVrfKey params.vrfKeyhash).forM fun existing =>
      rejectIf (¬ pools.isRegistered params.operator ∨ existing ≠ params.operator)
        (.vrfKeyAlreadyRegistered params.operator params.vrfKeyhash existing)

def registerPool (params : PoolParams) (progress : CertProgress) : Result CertProgress := do
  checkPoolParams context progress.poolState params
  let registered :=
    { progress with
      poolState := progress.poolState.registerWithDeposit params context.poolDeposit }
  -- only a new pool pays the deposit
  return if progress.poolState.isRegistered params.operator then registered
    else registered.takeDeposit .pool context.poolDeposit

def retirePool (pool : PoolKeyHash) (epoch : EpochNo) (progress : CertProgress) :
    Result CertProgress := do
  rejectIf (epoch ≤ context.currentEpoch) (.poolRetirementTooEarly epoch context.currentEpoch)
  let maxEpoch := saturatingAdd context.currentEpoch context.eMax
  rejectIf (maxEpoch < epoch)
    (.poolRetirementTooFar epoch context.currentEpoch context.eMax maxEpoch)
  rejectIf (¬ progress.poolState.isRegistered pool) (.poolNotRegistered pool)
  return { progress with poolState := progress.poolState.retire pool epoch }

/-! ## Genesis delegations and instantaneous rewards -/

/-- Some other genesis key, now or later, has the property. -/
def usedByOther (genesisHash : Hash28) (uses : GenesisDelegationState → Bool)
    (progress : CertProgress) : Bool :=
  (progress.genDelegs.entries.any fun entry => entry.1 ≠ genesisHash ∧ uses entry.2) ||
    progress.futureGenDelegs.entries.any fun entry => entry.1.2 ≠ genesisHash ∧ uses entry.2

/-- Replace what is scheduled for a genesis key. -/
def scheduleFutureGenesisDelegation (activationSlot : SlotNo) (genesisHash : Hash28)
    (delegation : GenesisDelegationState)
    (future : KeyedMap (SlotNo × Hash28) GenesisDelegationState) :
    KeyedMap (SlotNo × Hash28) GenesisDelegationState :=
  (keep (fun key _ => key.2 ≠ genesisHash) future).insert (activationSlot, genesisHash)
    delegation

/-- Change a genesis delegation, after the stability window when there is one. -/
def delegateGenesis {Update : Type} (env : CertEnv Update) (genesisHash delegateHash : Hash28)
    (vrfHash : VrfKeyHash) (progress : CertProgress) : Result CertProgress := do
  rejectIf (progress.genDelegs.lookup genesisHash).isNone (.genesisKeyNotInMapping genesisHash)
  rejectIf (usedByOther genesisHash (·.delegate = delegateHash) progress)
    (.duplicateGenesisDelegate delegateHash)
  rejectIf (usedByOther genesisHash (·.vrf = vrfHash) progress) (.duplicateGenesisVrf vrfHash)
  return match env.stabilityWindow with
    | some window =>
      { progress with
        futureGenDelegs := scheduleFutureGenesisDelegation
          (saturatingAdd env.currentSlot window) genesisHash ⟨delegateHash, vrfHash⟩
          progress.futureGenDelegs }
    | none =>
      { progress with
        genDelegs := progress.genDelegs.insert genesisHash ⟨delegateHash, vrfHash⟩ }

/-- Add signed deltas by credential; sums wrap. -/
def mergeDeltas (deltas rewards : KeyedMap StakeCredential Int64) :
    KeyedMap StakeCredential Int64 :=
  deltas.entries.foldl (fun rewards entry =>
    rewards.insert entry.1 ((rewards.lookup entry.1).getD 0 + entry.2)) rewards

/-- The positive rewards of a map, summed with wrap-around. -/
def positiveTotal (rewards : KeyedMap StakeCredential Int64) : UInt64 :=
  ((rewards.entries.map (·.2)).filter (0 < ·)).foldl (fun total delta => total + delta.toUInt64) 0

/-- The checks of a certificate that moves instantaneous rewards. -/
def checkMir (context : MirValidationContext) (pot : MirPot) (target : MirTarget) :
    Result Unit := do
  context.mirDeadlineSlot.forM fun deadline =>
    rejectIf (deadline ≤ context.currentSlot)
      (.mirCertificateTooLateInEpoch context.currentSlot deadline)
  let rewards := context.instantaneousRewards.ofPot pot
  let balance := context.accounting.ofPot pot
  let withDelta := saturatingAddSigned balance (context.instantaneousRewards.delta pot)
  match target with
  | .stakeCredentials deltas => do
    if context.alonzoMirTransfers then
      rejectIf (deltas.entries.any fun entry =>
        ((rewards.lookup entry.1).getD 0).toInt + entry.2.toInt < 0) .mirProducesNegativeUpdate
    else
      rejectIf (deltas.entries.any fun entry => entry.2 < 0) .mirNegativesNotCurrentlyAllowed
    let required := positiveTotal (mergeDeltas deltas rewards)
    let available := if context.alonzoMirTransfers then withDelta else balance
    rejectIf (available < required) (.mirInsufficientPotBalance pot available required)
  | .sendToOppositePot coin => do
    rejectIf (¬ context.alonzoMirTransfers) .mirTransferNotCurrentlyAllowed
    let available := saturatingSub withDelta (positiveTotal rewards)
    rejectIf (available < coin) (.mirInsufficientForTransfer pot available coin)

/-! ## The rule -/

section

variable {Update : Type}

/-- Certificates of another era are refused. -/
def checkEraOfCertificate (context : CertificateValidationContext) (certificate : Certificate) :
    Result Unit := do
  rejectIf (certificate.isConwayOnly ∧ ¬ context.isConway)
    (.unsupportedCertificate "Conway certificate in pre-Conway era")
  rejectIf (certificate.isPreConwayOnly ∧ context.isConway)
    (.unsupportedCertificate "pre-Conway certificate in Conway era")

def applyCertificateBody (env : CertEnv Update) (progress : CertProgress) (certIndex : Nat) :
    Certificate → Result CertProgress
  | .accountRegistration credential =>
    registerAccount env credential env.context.keyDeposit certIndex progress
  | .accountRegistrationDeposit credential deposit =>
    registerAccountWithDeposit env credential deposit certIndex progress
  | .accountUnregistration credential => do
    -- the refund is the parameter of today, not the deposit on record
    return (← unregisterStakeCredential credential progress).payRefund .key
      env.context.keyDeposit
  | .accountUnregistrationDeposit credential refund =>
    unregisterAccountWithDeposit env credential refund progress
  | .delegationToStakePool credential pool => delegateStakeCredential credential pool progress
  | .accountRegistrationDelegationToStakePool credential pool deposit => do
    delegateStakeCredential credential pool
      (← registerAccountWithDeposit env credential deposit certIndex progress)
  | .delegationToDrep credential drep =>
    delegateDrep credential drep env.context.bootstrapPhase progress
  | .delegationToStakePoolAndDrep credential pool drep => do
    delegateDrep credential drep env.context.bootstrapPhase
      (← delegateStakeCredential credential pool progress)
  | .accountRegistrationDelegationToDrep credential drep deposit => do
    delegateDrep credential drep env.context.bootstrapPhase
      (← registerAccountWithDeposit env credential deposit certIndex progress)
  | .accountRegistrationDelegationToStakePoolAndDrep credential pool drep deposit => do
    let registered ← registerAccountWithDeposit env credential deposit certIndex progress
    delegateDrep credential drep env.context.bootstrapPhase
      (← delegateStakeCredential credential pool registered)
  | .committeeAuthorization cold hot =>
    setCommitteeAuthorization env cold (.committeeHotCredential hot) progress
  | .committeeResignation cold anchor =>
    setCommitteeAuthorization env cold (.committeeMemberResigned anchor) progress
  | .poolRegistration params => registerPool env.context params progress
  | .poolRetirement pool epoch => retirePool env.context pool epoch progress
  | .drepRegistration credential deposit anchor => do
    env.context.drepDeposit.forM fun expected =>
      rejectIf (deposit ≠ expected) (.drepIncorrectDeposit deposit expected)
    return (← registerDrep credential deposit anchor progress).takeDeposit .drep deposit
  | .drepUnregistration credential refund => do
    return (← unregisterDrep credential refund progress).payRefund .drep refund
  | .drepUpdate credential anchor => updateDrep credential anchor progress
  | .genesisDelegation genesisHash delegateHash vrfHash =>
    delegateGenesis env genesisHash delegateHash vrfHash progress
  | .moveInstantaneousReward pot target => do
    env.mirContext.forM fun context => checkMir context pot target
    return progress

def applyCertificate (env : CertEnv Update) (progress : CertProgress)
    (certificate : Certificate × Nat) : Result CertProgress := do
  checkEraOfCertificate env.context certificate.1
  applyCertificateBody env progress certificate.2 certificate.1

/-- The state after the withdrawals, before the first certificate. -/
def afterWithdrawals (state : CertState) (withdrawals : Option (List (RewardAccount × UInt64))) :
    Result CertProgress := do
  let accounts ← (withdrawals.getD []).foldlM withdraw state.rewardAccounts
  return ⟨{ state with rewardAccounts := accounts }, 0, 0⟩

/-- Withdrawals, then certificates. -/
def applyCertificatesAndWithdrawals (env : CertEnv Update) (state : CertState)
    (certificates : Option (List Certificate))
    (withdrawals : Option (List (RewardAccount × UInt64))) : Result (CertState × Adjustments) := do
  let start ← afterWithdrawals state withdrawals
  let progress ← (certificates.getD []).zipIdx.foldlM (applyCertificate env) start
  return (progress.toCertState, {
    withdrawalTotal := ((withdrawals.getD []).map Prod.snd).foldl saturatingAdd 0
    totalDeposits := progress.totalDeposits
    totalRefunds := progress.totalRefunds })

/-- Collect the instantaneous rewards of a list of certificates. -/
def accumulateMirFromCerts (rewards : InstantaneousRewards) (certificates : List Certificate) :
    InstantaneousRewards :=
  certificates.foldl (fun rewards certificate =>
    match certificate with
    | .moveInstantaneousReward .reserves (.stakeCredentials deltas) =>
      { rewards with irReserves := mergeDeltas deltas rewards.irReserves }
    | .moveInstantaneousReward .treasury (.stakeCredentials deltas) =>
      { rewards with irTreasury := mergeDeltas deltas rewards.irTreasury }
    | .moveInstantaneousReward .reserves (.sendToOppositePot coin) =>
      { rewards with
        deltaReserves := saturatingSubInt64 rewards.deltaReserves coin.toInt64
        deltaTreasury := saturatingAddInt64 rewards.deltaTreasury coin.toInt64 }
    | .moveInstantaneousReward .treasury (.sendToOppositePot coin) =>
      { rewards with
        deltaReserves := saturatingAddInt64 rewards.deltaReserves coin.toInt64
        deltaTreasury := saturatingSubInt64 rewards.deltaTreasury coin.toInt64 }
    | _ => rewards) rewards

/-- Representatives that register or update are active. -/
def touchDrepActivityForCerts (certificates : List Certificate) (epoch : EpochNo)
    (dreps : DrepState) : DrepState :=
  certificates.foldl (fun dreps certificate =>
    match certificate with
    | .drepRegistration credential _ _ | .drepUpdate credential _ =>
      modify (drepFromCredential credential) (touchActivity epoch) dreps
    | _ => dreps) dreps

/-- The voters behind the representatives that leave. -/
def collectConwayUnregisteredDrepVoters (certificates : List Certificate) : List Voter :=
  certificates.filterMap fun certificate =>
    match certificate with
    | .drepUnregistration (.addrKeyHash hash) _ => some (.drepKeyHash hash)
    | .drepUnregistration (.scriptHash hash) _ => some (.drepScript hash)
    | _ => none

end

end Yggdrasil.Ledger
