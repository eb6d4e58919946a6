import Yggdrasil.Ledger.Types

/-!
# Ledger errors

The variants of `LedgerError` (`crates/ledger/src/error.rs`) that the modelled rules raise, with
the data each one carries.  Rules that stay parameters of the model report `other`.
-/

namespace Yggdrasil.Ledger

/-- A rule violation, or a byte string that does not decode. -/
inductive LedgerError where
  | cborUnexpectedEof
  | cborInvalidAdditionalInfo (info : UInt8)
  | cborTypeMismatch (expected actual : UInt8)
  | cborInvalidLength (expected actual : Nat)
  | cborTrailingBytes (count : Nat)
  | cborDecodeError (reason : String)
  | cborNestingTooDeep (max : Nat)
  | decodedCountTooLarge (count : UInt64) (max : Nat)
  | txTooLarge (actual max : Nat)
  | feeTooSmall (minimum declared : UInt64)
  | exUnitsExceedTxLimit (txMem txSteps maxMem maxSteps : UInt64)
  | outputTooSmall (minimum actual : UInt64)
  | outputTooBig (actual max : Nat)
  | zeroValuedMultiAssetOutput (policyId : Hash28) (assetName : Bytes)
  | outputBootAddrAttrsTooBig (size : Nat)
  | missingCollateralForScripts
  | noCollateralInputs
  | tooManyCollateralInputs (count : Nat) (max : UInt32)
  | collateralInputNotInUtxo
  | collateralNotVKeyLocked
  | collateralBalanceNegative (inputCoin returnCoin : UInt64)
  | collateralContainsNonAda
  | incorrectTotalCollateralField (declared computed : UInt64)
  | insufficientCollateral (fee percentage required provided : UInt64)
  | noInputs
  | noOutputs
  | duplicateInput
  | inputNotInUtxo
  | txExpired (ttl slot : UInt64)
  | txNotYetValid (start slot : UInt64)
  | valueOverflow (site : String)
  | valueNotPreserved (consumed produced fee : UInt64)
  | triesToForgeADA
  | multiAssetNotPreserved (policy : Hash28) (assetName : Bytes) (expected produced : UInt64)
  | missingVKeyWitness (hash : Hash28)
  | invalidVKeyWitnessSignature (hash : Hash28)
  | invalidBootstrapWitnessAttributes (attributes : Bytes)
  | invalidBootstrapWitnessSignature (hash : Hash28)
  | nativeScriptFailed (hash : Hash28)
  | missingRedeemer (hash : Hash28) (purpose : String)
  | extraRedeemer (tag : UInt8) (index : UInt64)
  | missingDatum (txId : TxId) (index : UInt64)
  | noCostModel (language : UInt8)
  | plutusScriptDecodeError (hash : Hash28) (reason : String)
  | plutusScriptFailed (hash : Hash28) (reason : String)
  | validationTagMismatch (claimed actual : Bool) (reason : String)
  | blockExUnitsExceeded (blockMem blockSteps maxMem maxSteps : UInt64)
  | bodyRefScriptsSizeTooBig (actual maxAllowed : Nat)
  | txRefScriptsSizeTooBig (actual maxAllowed : Nat)
  | zeroDonation
  | slotNotIncreasing (tipSlot blockSlot : SlotNo)
  | blockEraRegression
  | blockTooLarge (actual max : Nat)
  | headerTooLarge (actual max : Nat)
  | submittedTxIsInvalid
  | rewardAccountNotRegistered (account : RewardAccount)
  | withdrawalExceedsBalance (account : RewardAccount) (requested available : UInt64)
  | withdrawalNotFullDrain (account : RewardAccount) (requested balance : UInt64)
  | withdrawalNotDelegatedToDRep (credential : Hash28)
  | unsupportedCertificate (reason : String)
  | depositIncorrectDELEG (supplied expected : UInt64)
  | incorrectDepositDELEG (supplied expected : UInt64)
  | refundIncorrectDELEG (supplied expected : UInt64)
  | incorrectKeyDepositRefund (supplied expected : UInt64)
  | stakeCredentialAlreadyRegistered (credential : StakeCredential)
  | stakeCredentialNotRegistered (credential : StakeCredential)
  | stakeCredentialHasRewards (credential : StakeCredential) (balance : UInt64)
  | poolNotRegistered (pool : Hash28)
  | poolCostTooLow (cost minPoolCost : UInt64)
  | poolMarginInvalid (numerator denominator : UInt64)
  | poolRewardAccountNetworkMismatch (actual expected : UInt8)
  | poolMetadataUrlTooLong (length : Nat)
  | duplicatePoolOwner (owner : Hash28)
  | vrfKeyAlreadyRegistered (pool : Hash28) (vrfKey : Hash32) (existingPool : Hash28)
  | poolRetirementTooEarly (retirementEpoch currentEpoch : EpochNo)
  | poolRetirementTooFar (retirementEpoch currentEpoch : EpochNo) (eMax : UInt64)
      (maxEpoch : EpochNo)
  | drepIncorrectDeposit (supplied expected : UInt64)
  | drepIncorrectRefund (supplied expected : UInt64)
  | drepAlreadyRegistered (drep : DRep)
  | drepNotRegistered (drep : DRep)
  | delegateeDRepNotRegistered (drep : DRep)
  | committeeHasPreviouslyResigned (coldCredential : StakeCredential)
  | committeeIsUnknown (coldCredential : StakeCredential)
  | genesisKeyNotInMapping (genesisHash : Hash28)
  | duplicateGenesisDelegate (delegateHash : Hash28)
  | duplicateGenesisVrf (vrfHash : Hash32)
  | mirCertificateTooLateInEpoch (slot deadline : SlotNo)
  | mirNegativesNotCurrentlyAllowed
  | mirProducesNegativeUpdate
  | mirInsufficientPotBalance (pot : MirPot) (available required : UInt64)
  | mirTransferNotCurrentlyAllowed
  | mirInsufficientForTransfer (pot : MirPot) (available required : UInt64)
  | nonGenesisUpdatePPUP (proposer : Hash28)
  | ppUpdateWrongEpoch (currentEpoch targetEpoch expectedEpoch : EpochNo) (votingPeriod : String)
  | pvCannotFollowPPUP (currentMajor currentMinor proposedMajor proposedMinor : UInt64)
  | currentTreasuryValueIncorrect (supplied actual : UInt64)
  | disallowedProposalDuringBootstrap
  | malformedProposal
  | invalidPrevGovActionId
  | proposalCantFollow (supplied expected : UInt64 × UInt64)
  | missingProtocolVersionForHardFork
  | proposalDepositIncorrect (supplied expected : UInt64)
  | invalidRewardAccountBytes (bytes : Bytes)
  | proposalProcedureNetworkIdMismatch (account : RewardAccount) (expectedNetwork : UInt8)
  | proposalReturnAccountDoesNotExist (account : RewardAccount)
  | treasuryWithdrawalsNetworkIdMismatch (account : RewardAccount) (expectedNetwork : UInt8)
  | treasuryWithdrawalReturnAccountsDoNotExist (accounts : List RewardAccount)
  | zeroTreasuryWithdrawals
  | invalidGuardrailsScriptHash (proposalHash constitutionHash : Option Hash28)
  | wellFormedUnitIntervalRatification (numerator denominator : UInt64)
  | conflictingCommitteeUpdate (members : List StakeCredential)
  | expirationEpochTooSmall (members : List (StakeCredential × EpochNo))
  | missingProtocolParameters
  | other (rule : String)
deriving DecidableEq, Repr

/-- How a call can end without a value: with an error it returns, or by a panic, which the
`.ok()` of a caller does not catch. -/
inductive Failure where
  | error (reason : LedgerError)
  | panicked
deriving DecidableEq, Repr

/-- The outcome of a fallible call. -/
abbrev Result := Except Failure

def reject {α : Type} (reason : LedgerError) : Result α := .error (.error reason)

/-- Return an error when the condition holds. -/
def rejectIf (condition : Prop) [Decidable condition] (reason : LedgerError) : Result Unit :=
  if condition then reject reason else .ok ()

/-- `Result::ok`: an error becomes `none`, a panic goes on. -/
def Result.toOption {α : Type} : Result α → Result (Option α)
  | .ok value => .ok (some value)
  | .error (.error _) => .ok none
  | .error .panicked => .error .panicked

@[simp] theorem rejectIf_eq_ok {condition : Prop} [Decidable condition] {reason : LedgerError}
    {done : Unit} : rejectIf condition reason = .ok done ↔ ¬ condition := by
  unfold rejectIf reject
  split
  · rename_i hcondition
    simp [hcondition]
  · rename_i hcondition
    simp [hcondition]

/-- A bind that succeeds went through its first part. -/
theorem bind_eq_ok {Reason α β : Type} {first : Except Reason α} {next : α → Except Reason β}
    {result : β} :
    (first >>= next) = .ok result ↔ ∃ value, first = .ok value ∧ next value = .ok result := by
  cases first with
  | error failure | ok value => simp [bind, Except.bind]

theorem map_eq_ok {Reason α β : Type} {first : Except Reason α} {next : α → β} {result : β} :
    first.map next = .ok result ↔ ∃ value, first = .ok value ∧ next value = result := by
  cases first with
  | error reason | ok value => simp [Except.map]

theorem exists_ok_iff_isOk {Reason Value : Type} {outcome : Except Reason Value} :
    (∃ value, outcome = .ok value) ↔ outcome.isOk = true := by
  cases outcome with
  | error reason | ok value => simp [Except.toBool]

/-- A check of every element succeeds exactly when the check of each one does. -/
theorem forM_eq_ok {α : Type} {items : List α} {check : α → Result Unit} :
    items.forM check = .ok () ↔ ∀ item ∈ items, check item = .ok () := by
  induction items with
  | nil => simp [pure, Except.pure]
  | cons item rest ih =>
    have hstep : (item :: rest).forM check = (check item >>= fun _ => rest.forM check) := rfl
    rw [hstep, bind_eq_ok, List.forall_mem_cons, ← ih]
    constructor
    · rintro ⟨⟨⟩, hfirst, hrest⟩
      exact ⟨hfirst, hrest⟩
    · rintro ⟨hfirst, hrest⟩
      exact ⟨(), hfirst, hrest⟩

end Yggdrasil.Ledger
