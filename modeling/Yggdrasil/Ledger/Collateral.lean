import Yggdrasil.Ledger.Fees

/-!
# Collateral

`validate_collateral` (`collateral.rs`), the checks of an Alonzo-or-later transaction around it
(`validate_alonzo_plus_tx` in `state/phase1_validation.rs`), and what the collateral-only
transition of a transaction with failed scripts does to the value in the UTxO set.

Validation sums the list of collateral inputs and compares lovelace; the transition removes the
inputs as a set and inserts the collateral return as it is.  The results below say exactly when
the two agree.
-/

namespace Yggdrasil.Ledger

open Library KeyedMap

/-! ## Validation -/

/-- Whether an output holds native assets. -/
def hasNonAda (output : MultiEraTxOut) : Bool := !output.value.assets.entries.isEmpty

/-- `ceil(fee × percentage / 100)`, truncated to a word. -/
def feeCollateralRequired (fee percentage : UInt64) : UInt64 :=
  .ofNat ((fee.toNat * percentage.toNat + 99) / 100)

/-- What the loop over the collateral inputs has gathered. -/
structure CollateralSum where
  inputCoin : UInt64 := 0
  inputsHaveNonAda : Bool := false
deriving DecidableEq, Repr

variable (params : ProtocolParameters) (utxo : MultiEraUtxo)

/-- One round of the loop: resolve an input, refuse a script-locked address, add up.  An address
that does not parse is let through. -/
def addCollateralInput (sum : CollateralSum) (input : ShelleyTxIn) : Result CollateralSum :=
  match utxo.lookup input with
  | none => reject .collateralInputNotInUtxo
  | some txout => do
    rejectIf ((Address.fromBytes txout.address).any (!·.isVkeyLocked)) .collateralNotVKeyLocked
    return {
      inputCoin := saturatingAdd sum.inputCoin txout.coin
      inputsHaveNonAda := sum.inputsHaveNonAda || hasNonAda txout }

def sumCollateral (inputs : List ShelleyTxIn) (sum : CollateralSum) : Result CollateralSum :=
  inputs.foldlM (addCollateralInput utxo) sum

/-- The lovelace at stake.  With a return output, native assets among the inputs switch the
asset check off: their balance is left to the value-preservation rule. -/
def effectiveCollateral (sum : CollateralSum) : Option MultiEraTxOut → Result UInt64
  | some ret => do
    rejectIf (sum.inputCoin < ret.coin)
      (.collateralBalanceNegative sum.inputCoin ret.coin)
    rejectIf (!sum.inputsHaveNonAda && hasNonAda ret) .collateralContainsNonAda
    return sum.inputCoin - ret.coin
  | none => do
    rejectIf sum.inputsHaveNonAda .collateralContainsNonAda
    return sum.inputCoin

/-- No more collateral inputs than the parameters allow. -/
def checkCollateralCount (inputs : List ShelleyTxIn) : Result Unit :=
  match params.maxCollateralInputs with
  | none => .ok ()
  | some max =>
    rejectIf (max.toNat < inputs.length) (.tooManyCollateralInputs inputs.length max)

/-- A declared total is the effective collateral. -/
def checkTotalCollateral (effective : UInt64) : Option UInt64 → Result Unit
  | none => .ok ()
  | some declared =>
    rejectIf (effective ≠ declared) (.incorrectTotalCollateralField declared effective)

/-- The effective collateral covers the required share of the fee. -/
def checkCollateralCovers (fee effective : UInt64) : Result Unit :=
  match params.collateralPercentage with
  | none => .ok ()
  | some percentage =>
    let required := feeCollateralRequired fee percentage
    rejectIf (effective < required)
      (.insufficientCollateral fee percentage required effective)

/-- Validate collateral; the result is the effective collateral. -/
def validateCollateral (collateralInputs : List ShelleyTxIn) (declaredFee : UInt64)
    (collateralReturn : Option MultiEraTxOut) (totalCollateral : Option UInt64) :
    Result UInt64 := do
  rejectIf collateralInputs.isEmpty .noCollateralInputs
  checkCollateralCount params collateralInputs
  let sum ← sumCollateral utxo collateralInputs {}
  let effective ← effectiveCollateral sum collateralReturn
  checkTotalCollateral effective totalCollateral
  checkCollateralCovers params declaredFee effective
  return effective

/-- What `validate_alonzo_plus_tx` is told about a transaction. -/
structure AlonzoPlusTx where
  txBodySize : Nat
  declaredFee : UInt64
  outputs : List MultiEraTxOut
  outputRawSizes : Option (List Nat)
  collateralInputs : Option (List ShelleyTxIn)
  totalExUnits : Option ExUnits
  collateralReturn : Option MultiEraTxOut
  collateralReturnRawSize : Option Nat
  totalCollateral : Option UInt64
  hasRedeemers : Bool
  refScriptsSize : Nat
  enforceCollateralInputLimit : Bool
deriving DecidableEq

namespace AlonzoPlusTx

/-- The outputs that are checked: the collateral return is one of them. -/
def allOutputs (tx : AlonzoPlusTx) : List MultiEraTxOut := tx.outputs ++ tx.collateralReturn.toList

/-- The sizes on the wire of all outputs, when all of them are known. -/
def allOutputRawSizes (tx : AlonzoPlusTx) : Option (List Nat) :=
  match tx.outputRawSizes, tx.collateralReturn with
  | some sizes, some _ => tx.collateralReturnRawSize.map fun size => sizes ++ [size]
  | some sizes, none => some sizes
  | none, _ => none

end AlonzoPlusTx

variable (params : ProtocolParameters) (utxo : MultiEraUtxo)

/-- Minimum lovelace by the sizes on the wire, or else by re-encoding. -/
def checkMinUtxo (tx : AlonzoPlusTx) : Result Unit :=
  match tx.allOutputRawSizes with
  | some sizes => validateAllOutputsMinUtxoWithSizes params tx.allOutputs sizes
  | none => validateAllOutputsMinUtxo params tx.allOutputs

/-- The part of the checks that concerns collateral. -/
def checkCollateral (tx : AlonzoPlusTx) : Result Unit := do
  if tx.enforceCollateralInputLimit then
    checkCollateralCount params (tx.collateralInputs.getD [])
  if tx.hasRedeemers then
    let collateral := tx.collateralInputs.getD []
    rejectIf collateral.isEmpty .missingCollateralForScripts
    let _ ← validateCollateral params utxo collateral tx.declaredFee tx.collateralReturn
      tx.totalCollateral

/-- The phase-1 checks of an Alonzo-or-later transaction against the parameters. -/
def validateAlonzoPlusTx (tx : AlonzoPlusTx) : Result Unit := do
  validateTxSize params tx.txBodySize
  validateConwayFee params tx.txBodySize tx.totalExUnits tx.refScriptsSize tx.declaredFee
  tx.totalExUnits.forM (validateTxExUnits params)
  checkMinUtxo params tx
  validateOutputNotTooBig params tx.allOutputs
  validateNoZeroValuedMultiAsset tx.allOutputs
  validateOutputBootAddrAttrs tx.allOutputs
  checkCollateral params utxo tx

/-! ## What validation establishes -/

/-- The lovelace of the entry a collateral input names. -/
def collateralCoin (input : ShelleyTxIn) : Nat :=
  amountAt MultiEraTxOut.lovelaceNat utxo input

variable {utxo : MultiEraUtxo} {sum : CollateralSum}

theorem addCollateralInput_inputCoin {next : CollateralSum} {input : ShelleyTxIn}
    (hadd : addCollateralInput utxo sum input = .ok next) :
    next.inputCoin.toNat = min (sum.inputCoin.toNat + collateralCoin utxo input) (2 ^ 64 - 1) := by
  unfold addCollateralInput at hadd
  cases hlookup : utxo.lookup input with
  | none =>
    rw [hlookup] at hadd
    cases hadd
  | some txout =>
    rw [hlookup] at hadd
    obtain ⟨_, _, hnext⟩ := bind_eq_ok.mp hadd
    cases hnext
    have hcoin : collateralCoin utxo input = txout.coin.toNat := by
      simp [collateralCoin, amountAt, hlookup, MultiEraTxOut.lovelaceNat]
    rw [toNat_saturatingAdd, hcoin]

variable {inputs : List ShelleyTxIn}

/-- The loop adds up the list, repetitions included, and stops at the largest word. -/
theorem sumCollateral_inputCoin {result : CollateralSum}
    (hsum : sumCollateral utxo inputs sum = .ok result) :
    result.inputCoin.toNat =
      min (sum.inputCoin.toNat + (inputs.map (collateralCoin utxo)).sum) (2 ^ 64 - 1) := by
  induction inputs generalizing sum with
  | nil =>
    have hsame : sum = result := by
      simpa [sumCollateral, pure, Except.pure] using hsum
    have hword : sum.inputCoin.toNat < 2 ^ 64 := sum.inputCoin.toNat_lt
    rw [← hsame, List.map_nil, List.sum_nil]
    omega
  | cons input rest ih =>
    unfold sumCollateral at hsum
    rw [List.foldlM_cons, bind_eq_ok] at hsum
    obtain ⟨next, hadd, hrest⟩ := hsum
    have hnext := addCollateralInput_inputCoin hadd
    have htail := ih hrest
    -- once saturated, the sum stays at the largest word
    rw [List.map_cons, List.sum_cons]
    omega

theorem effectiveCollateral_add {ret : Option MultiEraTxOut} {effective : UInt64}
    (heffective : effectiveCollateral sum ret = .ok effective) :
    effective.toNat + (ret.map MultiEraTxOut.lovelaceNat).getD 0 = sum.inputCoin.toNat := by
  cases ret with
  | none =>
    obtain ⟨_, _, hreturn⟩ := bind_eq_ok.mp heffective
    cases hreturn
    rfl
  | some ret =>
    obtain ⟨_, hcovered, hrest⟩ := bind_eq_ok.mp heffective
    obtain ⟨_, _, hreturn⟩ := bind_eq_ok.mp hrest
    cases hreturn
    have hle : ret.coin ≤ sum.inputCoin := UInt64.not_lt.mp (rejectIf_eq_ok.mp hcovered)
    have hleNat := UInt64.le_iff_toNat_le.mp hle
    rw [UInt64.toNat_sub_of_le _ _ hle]
    simp only [Option.map_some, Option.getD_some, MultiEraTxOut.lovelaceNat]
    omega

variable {params : ProtocolParameters}

/-- What a successful validation says about lovelace. -/
theorem validateCollateral_effective {fee : UInt64} {ret : Option MultiEraTxOut}
    {totalCollateral : Option UInt64} {effective : UInt64}
    (hvalid : validateCollateral params utxo inputs fee ret totalCollateral = .ok effective) :
    effective.toNat + (ret.map MultiEraTxOut.lovelaceNat).getD 0 =
      min (inputs.map (collateralCoin utxo)).sum (2 ^ 64 - 1) := by
  unfold validateCollateral at hvalid
  simp only [bind_eq_ok] at hvalid
  obtain ⟨_, _, _, _, sum, hsum, eff, heffective, _, _, _, _, hreturn⟩ := hvalid
  cases hreturn
  have hcoin := sumCollateral_inputCoin hsum
  have hadd := effectiveCollateral_add heffective
  have hzero : (0 : UInt64).toNat = 0 := rfl
  rw [hzero, zero_add] at hcoin
  rw [hadd, hcoin]

/-! ## The collateral-only transition -/

/-- A transaction of the Babbage or Conway era, as far as its collateral is concerned. -/
structure BabbageTx where
  id : TxId
  size : Nat
  fee : UInt64
  outputs : List BabbageTxOut
  outputRawSizes : Option (List Nat)
  collateral : Option (List ShelleyTxIn)
  totalExUnits : Option ExUnits
  collateralReturn : Option BabbageTxOut
  collateralReturnRawSize : Option Nat
  totalCollateral : Option UInt64
  refScriptsSize : Nat
deriving DecidableEq

namespace BabbageTx

/-- The arguments with which the block rules call `validate_alonzo_plus_tx`. -/
def checks (tx : BabbageTx) : AlonzoPlusTx where
  txBodySize := tx.size
  declaredFee := tx.fee
  outputs := tx.outputs.map .babbage
  outputRawSizes := tx.outputRawSizes
  collateralInputs := tx.collateral
  totalExUnits := tx.totalExUnits
  collateralReturn := tx.collateralReturn.map .babbage
  collateralReturnRawSize := tx.collateralReturnRawSize
  totalCollateral := tx.totalCollateral
  hasRedeemers := tx.totalExUnits.isSome
  refScriptsSize := tx.refScriptsSize
  enforceCollateralInputLimit := true

/-- The collateral inputs as listed, repetitions included. -/
def collateralInputs (tx : BabbageTx) : List ShelleyTxIn := tx.collateral.getD []

/-- A measure of the return output, zero without one. -/
def returned (measure : MultiEraTxOut → Nat) (tx : BabbageTx) : Nat :=
  ((tx.collateralReturn.map .babbage).map measure).getD 0

/-- The UTxO set after the transaction failed. -/
def failedUtxo (utxo : MultiEraUtxo) (tx : BabbageTx) : MultiEraUtxo :=
  applyCollateralOnly utxo tx.id tx.collateral tx.collateralReturn tx.outputs.length

/-- The effective collateral that validation computes. -/
def effective (params : ProtocolParameters) (utxo : MultiEraUtxo) (tx : BabbageTx) :
    Result UInt64 :=
  validateCollateral params utxo tx.collateralInputs tx.fee
    (tx.collateralReturn.map .babbage) tx.totalCollateral

/-- The failed transaction keeps every asset and takes exactly the effective collateral. -/
def ConservesValue (params : ProtocolParameters) (utxo : MultiEraUtxo) (tx : BabbageTx) : Prop :=
  (∀ policyId assetName,
    total (MultiEraTxOut.quantity policyId assetName) (tx.failedUtxo utxo) =
      total (MultiEraTxOut.quantity policyId assetName) utxo) ∧
  ∀ effective, tx.effective params utxo = .ok effective →
    total MultiEraTxOut.lovelaceNat utxo =
      total MultiEraTxOut.lovelaceNat (tx.failedUtxo utxo) + effective.toNat

/-- The return output gives back every asset of the collateral entries, and the 64-bit sum over
the list of collateral inputs is the lovelace of the entries themselves, each counted once. -/
def CollateralBalanced (utxo : MultiEraUtxo) (tx : BabbageTx) : Prop :=
  (∀ policyId assetName,
    ∑ input ∈ tx.collateralInputs.toFinset,
        amountAt (MultiEraTxOut.quantity policyId assetName) utxo input =
      tx.returned (MultiEraTxOut.quantity policyId assetName)) ∧
  min (tx.collateralInputs.map (collateralCoin utxo)).sum (2 ^ 64 - 1) =
    ∑ input ∈ tx.collateralInputs.toFinset, collateralCoin utxo input

end BabbageTx

/-- No output of the transaction is in the set. -/
def FreshTxId (utxo : MultiEraUtxo) (txId : TxId) : Prop :=
  ∀ input ∈ utxo.keys, input.transactionId ≠ txId

instance (utxo : MultiEraUtxo) (txId : TxId) : Decidable (FreshTxId utxo txId) :=
  inferInstanceAs (Decidable (∀ input ∈ utxo.keys, input.transactionId ≠ txId))

theorem notMem_eraseAll_of_fresh {txId : TxId} (hfresh : FreshTxId utxo txId)
    (inputs : List ShelleyTxIn) (index : UInt16) :
    (⟨txId, index⟩ : ShelleyTxIn) ∉ eraseAll inputs utxo := by
  intro hmem
  obtain ⟨txout, hlookup⟩ := Option.isSome_iff_exists.mp (AList.lookup_isSome.mpr hmem)
  rw [lookup_eraseAll] at hlookup
  split at hlookup
  · cases hlookup
  · have hkey : (⟨txId, index⟩ : ShelleyTxIn) ∈ utxo := by
      rw [← AList.lookup_isSome, hlookup]
      rfl
    exact hfresh _ (AList.mem_keys.mp hkey) rfl

/-- The entries named by the collateral inputs go once each and the return comes in. -/
theorem total_failedUtxo (measure : MultiEraTxOut → Nat) {tx : BabbageTx}
    (hfresh : FreshTxId utxo tx.id) :
    total measure (tx.failedUtxo utxo) +
        ∑ input ∈ tx.collateralInputs.toFinset, amountAt measure utxo input =
      total measure utxo + tx.returned measure := by
  have hspent := total_eraseAll measure tx.collateralInputs utxo
  unfold BabbageTx.failedUtxo applyCollateralOnly BabbageTx.returned
  cases tx.collateralReturn with
  | none => simpa [BabbageTx.collateralInputs] using hspent
  | some ret =>
    have hnew := notMem_eraseAll_of_fresh hfresh tx.collateralInputs (.ofNat tx.outputs.length)
    have hinsert := total_insert_of_notMem measure (.babbage ret) hnew
    simp only [Option.map_some, Option.getD_some]
    unfold BabbageTx.collateralInputs at hinsert hspent ⊢
    omega

/-- A transaction with redeemers that passes the checks has validated collateral. -/
theorem effective_of_validateAlonzoPlusTx {tx : BabbageTx} (hredeemers : tx.totalExUnits.isSome)
    (hvalid : validateAlonzoPlusTx params utxo tx.checks = .ok ()) :
    ∃ effective, tx.effective params utxo = .ok effective := by
  unfold validateAlonzoPlusTx at hvalid
  simp only [bind_eq_ok] at hvalid
  obtain ⟨_, _, _, _, _, _, _, _, _, _, _, _, _, _, hcollateral⟩ := hvalid
  unfold checkCollateral at hcollateral
  simp only [bind_eq_ok, BabbageTx.checks, hredeemers, if_true] at hcollateral
  obtain ⟨_, _, _, _, effective, heffective, _⟩ := hcollateral
  exact ⟨effective, heffective⟩

/-- **When a failed script transaction conserves value.**  For every UTxO set and every accepted
Babbage or Conway transaction with redeemers, the collateral-only transition conserves assets
and lovelace exactly when the collateral is balanced; nothing in validation enforces that. -/
theorem conservesValue_iff (params : ProtocolParameters) (utxo : MultiEraUtxo) (tx : BabbageTx)
    (hredeemers : tx.totalExUnits.isSome) (hfresh : FreshTxId utxo tx.id)
    (hvalid : validateAlonzoPlusTx params utxo tx.checks = .ok ()) :
    tx.ConservesValue params utxo ↔ tx.CollateralBalanced utxo := by
  obtain ⟨effective, heffective⟩ := effective_of_validateAlonzoPlusTx hredeemers hvalid
  have hsum := validateCollateral_effective heffective
  have hcoins := total_failedUtxo MultiEraTxOut.lovelaceNat hfresh
  have hreturned : tx.returned MultiEraTxOut.lovelaceNat =
      ((tx.collateralReturn.map .babbage).map MultiEraTxOut.lovelaceNat).getD 0 := rfl
  refine and_congr (forall₂_congr fun policyId assetName => ?_) ?_
  · have hassets := total_failedUtxo (MultiEraTxOut.quantity policyId assetName) hfresh
    omega
  · unfold collateralCoin at hsum ⊢
    rw [← hreturned] at hsum
    constructor
    · intro hlovelace
      have hconserved := hlovelace effective heffective
      omega
    · intro hbalanced other hother
      rw [heffective] at hother
      cases hother
      omega

/-! ## Two transactions -/

/-- A token of a policy. -/
def token (quantity : UInt64) : MultiAsset := single 7 (single [0x54] quantity)

/-- An output with a token at an address that a key locks. -/
def keyOutput (lovelace quantity : UInt64) : BabbageTxOut where
  address := 0x61 :: List.replicate 28 0
  amount := .coinAndAssets lovelace (token quantity)
  datumOption := none
  scriptRef := none

/-- One entry with five ada and one token. -/
def tokenUtxo : MultiEraUtxo := single ⟨1, 0⟩ (.babbage (keyOutput 5000000 1))

/-- A script transaction with that entry as collateral and a return of two ada. -/
def collateralTx (inputs : List ShelleyTxIn) (returnedTokens : UInt64) : BabbageTx where
  id := 2
  size := 300
  fee := 200000
  outputs := []
  outputRawSizes := none
  collateral := some inputs
  totalExUnits := some ⟨1000, 1000⟩
  collateralReturn := some (keyOutput 2000000 returnedTokens)
  collateralReturnRawSize := none
  totalCollateral := none
  refScriptsSize := 0

/-- The criterion at a transaction that returns the one token that went in. -/
theorem sameTokens_conserve :
    (collateralTx [⟨1, 0⟩] 1).ConservesValue .alonzoDefaults tokenUtxo ↔
      (collateralTx [⟨1, 0⟩] 1).CollateralBalanced tokenUtxo :=
  conservesValue_iff .alonzoDefaults tokenUtxo (collateralTx [⟨1, 0⟩] 1) rfl
    (by decide +kernel) (by decide +kernel)

/-- A return of a thousand tokens for the one that went in passes every check: the failed
transaction mints tokens. -/
theorem thousandTokens_minted :
    (collateralTx [⟨1, 0⟩] 1000).totalExUnits.isSome ∧
      FreshTxId tokenUtxo (collateralTx [⟨1, 0⟩] 1000).id ∧
      validateAlonzoPlusTx .alonzoDefaults tokenUtxo (collateralTx [⟨1, 0⟩] 1000).checks = .ok () ∧
      ¬ (collateralTx [⟨1, 0⟩] 1000).ConservesValue .alonzoDefaults tokenUtxo := by
  refine ⟨rfl, by decide +kernel, by decide +kernel, fun hconserves => ?_⟩
  have htokens := hconserves.1 7 [0x54]
  revert htokens
  decide +kernel

/-- Listing an input twice counts its lovelace twice: the checks pass and more collateral is
recorded than the set loses. -/
example :
    (collateralTx [⟨1, 0⟩, ⟨1, 0⟩] 1).effective .alonzoDefaults tokenUtxo = .ok 8000000 ∧
      total MultiEraTxOut.lovelaceNat
        ((collateralTx [⟨1, 0⟩, ⟨1, 0⟩] 1).failedUtxo tokenUtxo) = 2000000 := by
  decide +kernel

end Yggdrasil.Ledger
