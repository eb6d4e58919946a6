import Yggdrasil.Ledger.Collateral
import Yggdrasil.Ledger.Transaction

/-!
# The UTxO transition of every era

The transitions of `utxo.rs` before Alonzo: `apply_byron_tx_with_id` and
`apply_{shelley,allegra,mary}_tx_withdrawals`, next to `applyTxWithdrawals` for the eras with
scripts.  Bodies carry the fields the transitions read.

A Byron input has a 32-bit place that is cut to 16 bits, and a Byron transaction may name an
input twice: only the eras from Shelley on compare the inputs with each other.
-/

namespace Yggdrasil.Ledger

open Library

/-! ## Byron -/

structure ByronTxIn where
  txid : TxId
  index : UInt32
deriving DecidableEq, Repr

structure ByronTxOut where
  address : Bytes
  amount : UInt64
deriving DecidableEq, Repr

structure ByronTx where
  inputs : List ByronTxIn
  outputs : List ByronTxOut
deriving DecidableEq, Repr

/-- The key of the input in the set; `index as u16` drops the upper half. -/
def ByronTxIn.toShelley (input : ByronTxIn) : ShelleyTxIn := ⟨input.txid, input.index.toUInt16⟩

/-- A Byron output is stored as a Shelley output. -/
def ByronTxOut.toShelley (output : ByronTxOut) : MultiEraTxOut :=
  .shelley output.address output.amount

/-- The keys a Byron transaction spends, as listed. -/
def ByronTx.shelleyInputs (tx : ByronTx) : List ShelleyTxIn := tx.inputs.map (·.toShelley)

/-- The transition of a Byron transaction; its fee is what the outputs leave. -/
def applyByronTxWithId (utxo : MultiEraUtxo) (txId : TxId) (tx : ByronTx) :
    Result MultiEraUtxo := do
  rejectIf tx.inputs.isEmpty .noInputs
  rejectIf tx.outputs.isEmpty .noOutputs
  let consumed ← sumConsumedCoin utxo tx.shelleyInputs
  let produced ← checkedSumCoins "byron produced sum" (tx.outputs.map (·.amount))
  rejectIf (consumed < produced) (.valueNotPreserved consumed produced 0)
  return insertOutputs (KeyedMap.eraseAll tx.shelleyInputs utxo) txId
    (tx.outputs.map (·.toShelley))

/-! ## Shelley, Allegra and Mary -/

/-- The transition these eras share; `interval` is the era's check of the slot and `assets` its
check of native assets. -/
def applyPreScriptTx (label : String) (interval assets : Result Unit) (utxo : MultiEraUtxo)
    (txId : TxId) (inputs : List ShelleyTxIn) (outputs : List MultiEraTxOut)
    (fee withdrawalTotal deposits refunds : UInt64) : Result MultiEraUtxo := do
  rejectIf inputs.isEmpty .noInputs
  rejectIf (¬ inputs.Nodup) .duplicateInput
  interval
  let consumed ← sumConsumedCoin utxo inputs
  let produced ← checkedSumCoins (label ++ " produced sum") (outputs.map (·.coin))
  let available ← checkedAdd3 (label ++ " consumed+wdrl+refunds") consumed withdrawalTotal refunds
  let spent ← checkedAdd (label ++ " fee+deposits") fee deposits
  checkCoinPreservation available produced spent
  assets
  return insertOutputs (KeyedMap.eraseAll inputs utxo) txId outputs

/-- An output of the Shelley and Allegra eras. -/
structure ShelleyTxOut where
  address : Bytes
  amount : UInt64
deriving DecidableEq, Repr

def ShelleyTxOut.toMultiEra (output : ShelleyTxOut) : MultiEraTxOut :=
  .shelley output.address output.amount

structure ShelleyTxBody where
  inputs : List ShelleyTxIn
  outputs : List ShelleyTxOut
  fee : UInt64
  ttl : SlotNo
deriving DecidableEq, Repr

structure AllegraTxBody where
  inputs : List ShelleyTxIn
  outputs : List ShelleyTxOut
  fee : UInt64
  ttl : Option SlotNo
  validityIntervalStart : Option SlotNo
deriving DecidableEq, Repr

structure MaryTxOut where
  address : Bytes
  amount : Value
deriving DecidableEq

def MaryTxOut.toMultiEra (output : MaryTxOut) : MultiEraTxOut := .mary output.address output.amount

structure MaryTxBody where
  inputs : List ShelleyTxIn
  outputs : List MaryTxOut
  fee : UInt64
  ttl : Option SlotNo
  validityIntervalStart : Option SlotNo
  mint : Option MintAsset
deriving DecidableEq

/-- The slot lies between two optional bounds. -/
def checkOptionalInterval (ttl validityIntervalStart : Option SlotNo) (currentSlot : SlotNo) :
    Result Unit := do
  ttl.forM fun ttl => rejectIf (ttl < currentSlot) (.txExpired ttl currentSlot)
  validityIntervalStart.forM fun start =>
    rejectIf (currentSlot < start) (.txNotYetValid start currentSlot)

/-- The checks of native assets, as Mary makes them. -/
def checkMaryAssets (utxo : MultiEraUtxo) (body : MaryTxBody) : Result Unit := do
  validateNoAdaInMint body.mint
  checkMultiAssetPreservation (consumedBundles utxo body.inputs)
    (body.outputs.map fun output => output.amount.assets) body.mint

section

variable (utxo : MultiEraUtxo) (txId : TxId) (currentSlot : SlotNo)
  (withdrawalTotal deposits refunds : UInt64)

/-- The time to live is mandatory in Shelley. -/
def applyShelleyTxWithdrawals (body : ShelleyTxBody) : Result MultiEraUtxo :=
  applyPreScriptTx "shelley" (rejectIf (body.ttl < currentSlot) (.txExpired body.ttl currentSlot))
    (.ok ()) utxo txId body.inputs (body.outputs.map (·.toMultiEra)) body.fee withdrawalTotal
    deposits refunds

def applyAllegraTxWithdrawals (body : AllegraTxBody) : Result MultiEraUtxo :=
  applyPreScriptTx "allegra"
    (checkOptionalInterval body.ttl body.validityIntervalStart currentSlot) (.ok ()) utxo txId
    body.inputs (body.outputs.map (·.toMultiEra)) body.fee withdrawalTotal deposits refunds

def applyMaryTxWithdrawals (body : MaryTxBody) : Result MultiEraUtxo :=
  applyPreScriptTx "mary"
    (checkOptionalInterval body.ttl body.validityIntervalStart currentSlot)
    (checkMaryAssets utxo body) utxo txId body.inputs (body.outputs.map (·.toMultiEra)) body.fee
    withdrawalTotal deposits refunds

end

/-! ## A transaction of any era -/

/-- A transaction whose era has native assets. -/
inductive AssetTx (Extra : Type) where
  | mary (body : MaryTxBody)
  | script (era : ScriptEra) (body : TxBody Extra)

namespace AssetTx

variable {Extra : Type}

def inputs : AssetTx Extra → List ShelleyTxIn
  | mary body => body.inputs
  | script _ body => body.inputs

def outputs : AssetTx Extra → List MultiEraTxOut
  | mary body => body.outputs.map (·.toMultiEra)
  | script _ body => body.outputs

def fee : AssetTx Extra → UInt64
  | mary body => body.fee
  | script _ body => body.fee

def mint : AssetTx Extra → Option MintAsset
  | mary body => body.mint
  | script _ body => body.mint

/-- The donation to the treasury, which only Conway has. -/
def donation : AssetTx Extra → UInt64
  | script .conway body => body.treasuryDonation.getD 0
  | _ => 0

def apply (utxo : MultiEraUtxo) (txId : TxId) (currentSlot : SlotNo)
    (withdrawalTotal deposits refunds : UInt64) : AssetTx Extra → Result MultiEraUtxo
  | mary body =>
    applyMaryTxWithdrawals utxo txId currentSlot withdrawalTotal deposits refunds body
  | script era body =>
    applyTxWithdrawals era utxo txId body currentSlot withdrawalTotal deposits refunds

end AssetTx

/-- A transaction of any era. -/
inductive EraTx (Extra : Type) where
  | byron (tx : ByronTx)
  | shelley (body : ShelleyTxBody)
  | allegra (body : AllegraTxBody)
  | assets (tx : AssetTx Extra)

namespace EraTx

variable {Extra : Type}

def outputs : EraTx Extra → List MultiEraTxOut
  | byron tx => tx.outputs.map (·.toShelley)
  | shelley body => body.outputs.map (·.toMultiEra)
  | allegra body => body.outputs.map (·.toMultiEra)
  | assets tx => tx.outputs

/-- The transition of the era; Byron knows neither withdrawals nor deposits. -/
def apply (utxo : MultiEraUtxo) (txId : TxId) (currentSlot : SlotNo)
    (withdrawalTotal deposits refunds : UInt64) : EraTx Extra → Result MultiEraUtxo
  | byron tx => applyByronTxWithId utxo txId tx
  | shelley body =>
    applyShelleyTxWithdrawals utxo txId currentSlot withdrawalTotal deposits refunds body
  | allegra body =>
    applyAllegraTxWithdrawals utxo txId currentSlot withdrawalTotal deposits refunds body
  | assets tx => tx.apply utxo txId currentSlot withdrawalTotal deposits refunds

end EraTx

end Yggdrasil.Ledger
