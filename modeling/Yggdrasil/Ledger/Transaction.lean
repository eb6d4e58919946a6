import Yggdrasil.Ledger.Fees

/-!
# Transaction bodies and the UTxO transition

The body of an Alonzo, Babbage or Conway transaction as far as the rules below read it, and the
transition `apply_*_tx_withdrawals` (`utxo.rs`) of a transaction whose scripts succeed.  The
three transitions differ in the labels of their overflow errors and in the treasury donation,
which only Conway has.  `Extra` stands for the rest of a body: metadata hash, script data hash,
certificate contents, update contents, votes and proposals.
-/

namespace Yggdrasil.Ledger

open Library

/-- The eras with scripts, whose blocks are applied with a phase-2 evaluator. -/
inductive ScriptEra where
  | alonzo
  | babbage
  | conway
deriving DecidableEq, Repr

/-- The label of an era in overflow errors. -/
def ScriptEra.label : ScriptEra → String
  | alonzo => "alonzo"
  | babbage => "babbage"
  | conway => "conway"

/-- A certificate, with the credential or key that has to authorize it. -/
inductive DCert where
  | accountRegistration (credential : StakeCredential)
  | accountUnregistration (credential : StakeCredential)
  | delegationToStakePool (credential : StakeCredential)
  | poolRegistration (operator : Hash28)
  | poolRetirement (operator : Hash28)
  | genesisDelegation (genesisHash : Hash28)
  | moveInstantaneousReward
  | accountRegistrationDeposit (credential : StakeCredential)
  | accountUnregistrationDeposit (credential : StakeCredential)
  | delegationToDrep (credential : StakeCredential)
  | delegationToStakePoolAndDrep (credential : StakeCredential)
  | accountRegistrationDelegationToStakePool (credential : StakeCredential)
  | accountRegistrationDelegationToDrep (credential : StakeCredential)
  | accountRegistrationDelegationToStakePoolAndDrep (credential : StakeCredential)
  | committeeAuthorization (coldCredential : StakeCredential)
  | committeeResignation (coldCredential : StakeCredential)
  | drepRegistration (credential : StakeCredential)
  | drepUnregistration (credential : StakeCredential)
  | drepUpdate (credential : StakeCredential)
deriving DecidableEq, Repr

/-- Who votes on a governance action. -/
inductive Voter where
  | committeeKeyHash (hash : Hash28)
  | committeeScript (hash : Hash28)
  | drepKeyHash (hash : Hash28)
  | drepScript (hash : Hash28)
  | stakePool (hash : Hash28)
deriving DecidableEq, Repr

/-- Minted and burned quantities by policy and asset name. -/
abbrev MintAsset := KeyedMap Hash28 (KeyedMap Bytes Int64)

structure TxBody (Extra : Type) where
  inputs : List ShelleyTxIn
  outputs : List MultiEraTxOut
  fee : UInt64
  ttl : Option SlotNo
  validityIntervalStart : Option SlotNo
  certificates : Option (List DCert)
  withdrawals : Option (List (RewardAccount × UInt64))
  /-- The proposers of a parameter update, before Conway. -/
  updateProposers : Option (List Hash28)
  mint : Option MintAsset
  collateral : Option (List ShelleyTxIn)
  requiredSigners : Option (List Hash28)
  collateralReturn : Option BabbageTxOut
  totalCollateral : Option UInt64
  referenceInputs : Option (List ShelleyTxIn)
  /-- The voters of the voting procedures, in Conway. -/
  voters : Option (List Voter)
  treasuryDonation : Option UInt64
  extra : Extra

/-! ## Sums -/

/-- Addition that reports an overflow. -/
def checkedAdd (site : String) (a b : UInt64) : Result UInt64 :=
  if a.toNat + b.toNat < 2 ^ 64 then .ok (a + b) else reject (.valueOverflow site)

def checkedAdd3 (site : String) (a b c : UInt64) : Result UInt64 := do
  checkedAdd site (← checkedAdd site a b) c

def checkedSumCoins (site : String) (coins : List UInt64) : Result UInt64 :=
  coins.foldlM (checkedAdd site) 0

/-- The lovelace of all inputs; every input has to be in the set. -/
def sumConsumedCoin (utxo : MultiEraUtxo) (inputs : List ShelleyTxIn) : Result UInt64 :=
  inputs.foldlM (fun total input =>
    match utxo.lookup input with
    | none => reject .inputNotInUtxo
    | some entry => checkedAdd "sum_consumed_coin" total entry.coin) 0

/-- The quantity of one asset over a list of bundles.  `add_multi_asset` adds with `+=`, which
wraps. -/
def sumMultiAsset (bundles : List MultiAsset) (policyId : Hash28) (assetName : Bytes) : UInt64 :=
  bundles.foldl (fun total bundle =>
    total + (((bundle.lookup policyId).bind fun names => names.lookup assetName).getD 0)) 0

/-- The bundles of the entries that the inputs name. -/
def consumedBundles (utxo : MultiEraUtxo) (inputs : List ShelleyTxIn) : List MultiAsset :=
  (inputs.filterMap utxo.lookup).map fun entry => entry.value.assets

/-- The assets a map of bundles names. -/
def assetKeys {Quantity : Type} (bundle : KeyedMap Hash28 (KeyedMap Bytes Quantity)) :
    List (Hash28 × Bytes) :=
  bundle.entries.flatMap fun policy => policy.2.entries.map fun asset => (policy.1, asset.1)

/-- Add a signed quantity: minting saturates above, burning below. -/
def applyMint (current : UInt64) (quantity : Int64) : UInt64 :=
  if 0 ≤ quantity.toInt then saturatingAdd current (.ofNat quantity.toInt.toNat)
  else saturatingSub current (.ofNat quantity.toInt.natAbs)

/-- What the consumed bundles and the mint field say about one asset. -/
def expectedQuantity (consumed : List MultiAsset) (mint : Option MintAsset) (policyId : Hash28)
    (assetName : Bytes) : UInt64 :=
  let current := sumMultiAsset consumed policyId assetName
  match (mint.bind fun minted => minted.lookup policyId).bind fun names =>
      names.lookup assetName with
  | some quantity => applyMint current quantity
  | none => current

/-- Consumed plus minted equals produced, for every asset named anywhere. -/
def checkMultiAssetPreservation (consumed produced : List MultiAsset)
    (mint : Option MintAsset) : Result Unit :=
  let keys := (consumed ++ produced).flatMap assetKeys ++ mint.toList.flatMap assetKeys
  keys.forM fun key =>
    let expected := expectedQuantity consumed mint key.1 key.2
    let produced := sumMultiAsset produced key.1 key.2
    rejectIf (expected ≠ produced) (.multiAssetNotPreserved key.1 key.2 expected produced)

def checkCoinPreservation (consumed produced fee : UInt64) : Result Unit := do
  let producedPlusFee ← checkedAdd "produced + fee" produced fee
  rejectIf (consumed ≠ producedPlusFee) (.valueNotPreserved consumed produced fee)

/-- The policy of 28 zero bytes may not be minted. -/
def validateNoAdaInMint (mint : Option MintAsset) : Result Unit :=
  rejectIf (mint.any fun minted => (minted.lookup 0).isSome) .triesToForgeADA

/-! ## The transition -/

section

variable {Extra : Type}

def checkValidityInterval (body : TxBody Extra) (currentSlot : SlotNo) : Result Unit := do
  body.ttl.forM fun ttl => rejectIf (ttl < currentSlot) (.txExpired ttl currentSlot)
  body.validityIntervalStart.forM fun start =>
    rejectIf (currentSlot < start) (.txNotYetValid start currentSlot)

/-- Add the outputs of a transaction behind its id; places are 16-bit words. -/
def insertOutputs (utxo : MultiEraUtxo) (txId : TxId) (outputs : List MultiEraTxOut) :
    MultiEraUtxo :=
  outputs.zipIdx.foldl (fun utxo output => utxo.insert ⟨txId, .ofNat output.2⟩ output.1) utxo

/-- What is available and what goes to fee, deposits and donation.  Conway computes the second
sum first, which matters when both overflow. -/
def balanceSides (era : ScriptEra) (body : TxBody Extra)
    (consumed withdrawalTotal deposits refunds : UInt64) : Result (UInt64 × UInt64) :=
  let available := checkedAdd3 (era.label ++ " consumed+wdrl+refunds") consumed withdrawalTotal
    refunds
  match era with
  | .conway => do
    let spent ← checkedAdd3 "conway fee+deposits+donation" body.fee deposits
      (body.treasuryDonation.getD 0)
    return (← available, spent)
  | _ => do
    return (← available, ← checkedAdd (era.label ++ " fee+deposits") body.fee deposits)

/-- The transition of a transaction whose scripts succeed. -/
def applyTxWithdrawals (era : ScriptEra) (utxo : MultiEraUtxo) (txId : TxId)
    (body : TxBody Extra) (currentSlot : SlotNo) (withdrawalTotal deposits refunds : UInt64) :
    Result MultiEraUtxo := do
  rejectIf body.inputs.isEmpty .noInputs
  rejectIf (¬ body.inputs.Nodup) .duplicateInput
  checkValidityInterval body currentSlot
  let consumed ← sumConsumedCoin utxo body.inputs
  let produced ← checkedSumCoins (era.label ++ " produced sum") (body.outputs.map (·.coin))
  let sides ← balanceSides era body consumed withdrawalTotal deposits refunds
  checkCoinPreservation sides.1 produced sides.2
  validateNoAdaInMint body.mint
  checkMultiAssetPreservation (consumedBundles utxo body.inputs)
    (body.outputs.map fun output => output.value.assets) body.mint
  return insertOutputs (KeyedMap.eraseAll body.inputs utxo) txId body.outputs

end

/-! ## Reference scripts -/

def maxRefScriptSizePerTx : Nat := 204800
def maxRefScriptSizePerBlock : Nat := 1048576

/-- The size of the reference scripts behind a list of inputs, repetitions included. -/
def refScriptsSize (lookup : ShelleyTxIn → Option MultiEraTxOut) (inputs : List ShelleyTxIn) :
    Nat :=
  ((inputs.filterMap lookup).filterMap fun output => output.scriptRef).foldl
    (fun total script => total + script.binarySize) 0

/-- Spending and reference inputs in the order they are read. -/
def TxBody.allInputs {Extra : Type} (body : TxBody Extra) : List ShelleyTxIn :=
  body.inputs ++ body.referenceInputs.getD []

end Yggdrasil.Ledger
