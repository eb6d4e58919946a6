import Yggdrasil.Ledger.Address
import Yggdrasil.Library.KeyedMap

/-!
# Values, outputs and the UTxO set

`Value` (`eras/mary.rs`), the outputs of the eras, `MultiEraTxOut` and `MultiEraUtxo`
(`utxo.rs`).  A `BTreeMap` is a keyed map whose entries stand in key order.  Inline datums and
native scripts are kept as the bytes they encode to, since only their size is read here.
-/

namespace Yggdrasil.Ledger

open Library

/-- Native assets: quantities by policy and asset name. -/
abbrev MultiAsset := KeyedMap Hash28 (KeyedMap Bytes UInt64)

/-- Lovelace, with or without native assets. -/
inductive Value where
  | coin (lovelace : UInt64)
  | coinAndAssets (lovelace : UInt64) (assets : MultiAsset)
deriving DecidableEq

namespace Value

def lovelace : Value → UInt64
  | coin amount => amount
  | coinAndAssets amount _ => amount

def assets : Value → MultiAsset
  | coin _ => ∅
  | coinAndAssets _ assets => assets

def quantity (policyId : Hash28) (assetName : Bytes) (value : Value) : Nat :=
  (((value.assets.lookup policyId).bind fun names => names.lookup assetName).map
    UInt64.toNat).getD 0

/-- The encoding of a map of assets. -/
def encodeMultiAsset (assets : MultiAsset) : Bytes :=
  Cbor.map assets.entries.length ++
    assets.entries.flatMap fun policy =>
      Cbor.bytes (bytesOfDigest 28 policy.1) ++ Cbor.map policy.2.entries.length ++
        policy.2.entries.flatMap fun asset => Cbor.bytes asset.1 ++ Cbor.unsigned asset.2

def encodeCbor : Value → Bytes
  | coin amount => Cbor.unsigned amount
  | coinAndAssets amount assets =>
    Cbor.array 2 ++ Cbor.unsigned amount ++ encodeMultiAsset assets

end Value

/-- The datum of a Babbage output: a hash, or the encoding of the datum itself. -/
inductive DatumOption where
  | hash (digest : Hash32)
  | inline (encoded : Bytes)
deriving DecidableEq, Repr

def DatumOption.encodeCbor : DatumOption → Bytes
  | hash digest => Cbor.array 2 ++ Cbor.unsigned 0 ++ Cbor.bytes (bytesOfDigest 32 digest)
  | inline encoded => Cbor.array 2 ++ Cbor.unsigned 1 ++ Cbor.tag 24 ++ Cbor.bytes encoded

/-- A script that an output carries for reference. -/
inductive Script where
  | native (encoded : Bytes)
  | plutusV1 (bytes : Bytes)
  | plutusV2 (bytes : Bytes)
  | plutusV3 (bytes : Bytes)
deriving DecidableEq, Repr

namespace Script

/-- The size of the script itself, without its envelope. -/
def binarySize : Script → Nat
  | native encoded => encoded.length
  | plutusV1 bytes => bytes.length
  | plutusV2 bytes => bytes.length
  | plutusV3 bytes => bytes.length

def encodeCbor : Script → Bytes
  | native encoded => Cbor.array 2 ++ Cbor.unsigned 0 ++ encoded
  | plutusV1 bytes => Cbor.array 2 ++ Cbor.unsigned 1 ++ Cbor.bytes bytes
  | plutusV2 bytes => Cbor.array 2 ++ Cbor.unsigned 2 ++ Cbor.bytes bytes
  | plutusV3 bytes => Cbor.array 2 ++ Cbor.unsigned 3 ++ Cbor.bytes bytes

end Script

/-- An output of the Babbage and Conway eras. -/
structure BabbageTxOut where
  address : Bytes
  amount : Value
  datumOption : Option DatumOption
  scriptRef : Option Script
deriving DecidableEq

def BabbageTxOut.encodeCbor (output : BabbageTxOut) : Bytes :=
  Cbor.map (2 + (if output.datumOption.isSome then 1 else 0) +
      (if output.scriptRef.isSome then 1 else 0)) ++
    Cbor.unsigned 0 ++ Cbor.bytes output.address ++
    Cbor.unsigned 1 ++ output.amount.encodeCbor ++
    (match output.datumOption with
      | some datum => Cbor.unsigned 2 ++ datum.encodeCbor
      | none => []) ++
    (match output.scriptRef with
      | some script => Cbor.unsigned 3 ++ Cbor.tag 24 ++ Cbor.bytes script.encodeCbor
      | none => [])

/-- An output of any era since Shelley. -/
inductive MultiEraTxOut where
  | shelley (address : Bytes) (amount : UInt64)
  | mary (address : Bytes) (amount : Value)
  | alonzo (address : Bytes) (amount : Value) (datumHash : Option Hash32)
  | babbage (output : BabbageTxOut)
deriving DecidableEq

namespace MultiEraTxOut

/-- The value of an output; a Shelley output holds lovelace only. -/
def value : MultiEraTxOut → Value
  | shelley _ amount => .coin amount
  | mary _ amount => amount
  | alonzo _ amount _ => amount
  | babbage output => output.amount

def coin : MultiEraTxOut → UInt64
  | shelley _ amount => amount
  | mary _ amount => amount.lovelace
  | alonzo _ amount _ => amount.lovelace
  | babbage output => output.amount.lovelace

def address : MultiEraTxOut → Bytes
  | shelley address _ => address
  | mary address _ => address
  | alonzo address _ _ => address
  | babbage output => output.address

/-- The size of the era's own encoding of an output. -/
def innerCborSize : MultiEraTxOut → Nat
  | shelley address amount =>
    (Cbor.array 2 ++ Cbor.bytes address ++ Cbor.unsigned amount).length
  | mary address amount => (Cbor.array 2 ++ Cbor.bytes address ++ amount.encodeCbor).length
  | alonzo address amount none =>
    (Cbor.array 2 ++ Cbor.bytes address ++ amount.encodeCbor).length
  | alonzo address amount (some hash) =>
    (Cbor.array 3 ++ Cbor.bytes address ++ amount.encodeCbor ++
      Cbor.bytes (bytesOfDigest 32 hash)).length
  | babbage output => output.encodeCbor.length

/-- The reference script of an output. -/
def scriptRef : MultiEraTxOut → Option Script
  | babbage output => output.scriptRef
  | _ => none

def lovelaceNat (output : MultiEraTxOut) : Nat := output.coin.toNat

def quantity (policyId : Hash28) (assetName : Bytes) (output : MultiEraTxOut) : Nat :=
  output.value.quantity policyId assetName

end MultiEraTxOut

/-- A reference to an output: the transaction that made it and the output's place there. -/
structure ShelleyTxIn where
  transactionId : TxId
  index : UInt16
deriving DecidableEq, Repr

abbrev MultiEraUtxo := KeyedMap ShelleyTxIn MultiEraTxOut

/-- The transition of a transaction whose scripts failed: its collateral inputs go, and the
collateral return, if any, comes in behind the places of the regular outputs. -/
def applyCollateralOnly (utxo : MultiEraUtxo) (txId : TxId)
    (collateral : Option (List ShelleyTxIn)) (collateralReturn : Option BabbageTxOut)
    (numOutputs : Nat) : MultiEraUtxo :=
  let spent := KeyedMap.eraseAll (collateral.getD []) utxo
  match collateralReturn with
  | none => spent
  | some ret => spent.insert ⟨txId, .ofNat numOutputs⟩ (.babbage ret)

end Yggdrasil.Ledger
