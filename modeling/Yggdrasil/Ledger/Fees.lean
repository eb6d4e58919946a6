import Yggdrasil.Ledger.Utxo
import Yggdrasil.Library.Saturating

/-!
# Protocol parameters, fees and output limits

The parameters the transaction checks read (`protocol_params.rs`), the minimum fee (`fees.rs`)
and the limits on outputs (`min_utxo.rs`).  Fractions are pairs of 128-bit words, so every
product and sum is reduced modulo `2 ^ 128`.
-/

namespace Yggdrasil.Ledger

open Library

/-- A fraction as the parameters carry it. -/
structure UnitInterval where
  numerator : UInt64
  denominator : UInt64
deriving DecidableEq, Repr

/-- Execution units: memory and steps. -/
structure ExUnits where
  mem : UInt64
  steps : UInt64
deriving DecidableEq, Repr

/-- What pools must reach to accept an action. -/
structure PoolVotingThresholds where
  motionNoConfidence : UnitInterval := ⟨51, 100⟩
  committeeNormal : UnitInterval := ⟨51, 100⟩
  committeeNoConfidence : UnitInterval := ⟨51, 100⟩
  hardForkInitiation : UnitInterval := ⟨51, 100⟩
  ppSecurityGroup : UnitInterval := ⟨51, 100⟩
deriving DecidableEq, Repr

/-- What representatives must reach to accept an action. -/
structure DRepVotingThresholds where
  motionNoConfidence : UnitInterval := ⟨67, 100⟩
  committeeNormal : UnitInterval := ⟨67, 100⟩
  committeeNoConfidence : UnitInterval := ⟨60, 100⟩
  updateToConstitution : UnitInterval := ⟨75, 100⟩
  hardForkInitiation : UnitInterval := ⟨60, 100⟩
  ppNetworkGroup : UnitInterval := ⟨67, 100⟩
  ppEconomicGroup : UnitInterval := ⟨67, 100⟩
  ppTechnicalGroup : UnitInterval := ⟨67, 100⟩
  ppGovGroup : UnitInterval := ⟨75, 100⟩
  treasuryWithdrawal : UnitInterval := ⟨67, 100⟩
deriving DecidableEq, Repr

/-- The costs of primitive operations, by language. -/
abbrev CostModels := List (UInt8 × List Int64)

/-- The parameters of the protocol. -/
structure ProtocolParameters where
  minFeeA : UInt64 := 44
  minFeeB : UInt64 := 155381
  maxBlockBodySize : UInt32 := 65536
  maxTxSize : UInt32 := 16384
  maxBlockHeaderSize : UInt16 := 1100
  keyDeposit : UInt64 := 2000000
  poolDeposit : UInt64 := 500000000
  eMax : UInt64 := 18
  nOpt : UInt64 := 150
  a0 : UnitInterval := ⟨3, 10⟩
  rho : UnitInterval := ⟨3, 1000⟩
  tau : UnitInterval := ⟨2, 10⟩
  d : Option UnitInterval := none
  extraEntropy : Option Nonce := none
  minPoolCost : UInt64 := 340000000
  govActionLifetime : Option UInt64 := none
  govActionDeposit : Option UInt64 := none
  drepDeposit : Option UInt64 := none
  drepActivity : Option UInt64 := none
  protocolVersion : Option (UInt64 × UInt64) := some (2, 0)
  minUtxoValue : Option UInt64 := some 1000000
  coinsPerUtxoByte : Option UInt64 := none
  priceMem : Option UnitInterval := none
  priceStep : Option UnitInterval := none
  maxTxExUnits : Option ExUnits := none
  maxBlockExUnits : Option ExUnits := none
  maxValSize : Option UInt32 := none
  collateralPercentage : Option UInt64 := none
  maxCollateralInputs : Option UInt32 := none
  costModels : Option CostModels := none
  poolVotingThresholds : Option PoolVotingThresholds := none
  drepVotingThresholds : Option DRepVotingThresholds := none
  minCommitteeSize : Option UInt64 := none
  committeeTermLimit : Option UInt64 := none
  minFeeRefScriptCostPerByte : Option UnitInterval := none
deriving DecidableEq, Repr

namespace ProtocolParameters

/-- The Alonzo defaults of the main network. -/
def alonzoDefaults : ProtocolParameters where
  protocolVersion := some (6, 0)
  minUtxoValue := none
  coinsPerUtxoByte := some 4310
  priceMem := some ⟨577, 10000⟩
  priceStep := some ⟨721, 10000000⟩
  maxTxExUnits := some ⟨10000000000, 10000000000000⟩
  maxBlockExUnits := some ⟨50000000000, 40000000000000⟩
  maxValSize := some 5000
  collateralPercentage := some 150
  maxCollateralInputs := some 3

/-- The least lovelace of an output of the given size. -/
def minLovelaceForUtxo (params : ProtocolParameters) (serializedOutputSize : Nat) : Option UInt64 :=
  match params.coinsPerUtxoByte with
  | some perByte => some (saturatingMul perByte (.ofNat serializedOutputSize + 160))
  | none => params.minUtxoValue

end ProtocolParameters

/-! ## Fees -/

variable (params : ProtocolParameters) (txSizeBytes : Nat) (totalExUnits : Option ExUnits)
  (outputs : List MultiEraTxOut)

def minFeeLinear : UInt64 :=
  saturatingAdd (saturatingMul params.minFeeA (.ofNat txSizeBytes)) params.minFeeB

/-- Divide a 128-bit fraction by its greatest common divisor. -/
def reduceU128 (fraction : Nat × Nat) : Nat × Nat :=
  let g := Nat.gcd fraction.1 fraction.2
  (fraction.1 / g, fraction.2 / g)

/-- Add two 128-bit fractions and reduce. -/
def addU128 (acc term : Nat × Nat) : Nat × Nat :=
  reduceU128 ((acc.1 * term.2 + term.1 * acc.2) % 2 ^ 128, acc.2 * term.2 % 2 ^ 128)

/-- Add the price of one kind of execution unit. -/
def addUnitPrice (acc : Nat × Nat) (value : UInt64) : Option UnitInterval → Nat × Nat
  | none => acc
  | some ratio =>
    if ratio.denominator = 0 ∨ ratio.numerator = 0 ∨ value = 0 then acc
    else addU128 acc (value.toNat * ratio.numerator.toNat, ratio.denominator.toNat)

/-- The price of execution units, rounded up. -/
def scriptFee (totalExUnits : ExUnits) : UInt64 :=
  let memory := addUnitPrice (0, 1) totalExUnits.mem params.priceMem
  let acc := addUnitPrice memory totalExUnits.steps params.priceStep
  .ofNat ((acc.1 + (acc.2 - 1)) / acc.2)

def totalMinFee : UInt64 :=
  let base := minFeeLinear params txSizeBytes
  match totalExUnits with
  | some units => saturatingAdd base (scriptFee params units)
  | none => base

/-- The declared fee covers the minimum without reference scripts. -/
def validateFee (declaredFee : UInt64) : Result Unit :=
  let min := totalMinFee params txSizeBytes totalExUnits
  rejectIf (declaredFee < min) (.feeTooSmall min declaredFee)

def refScriptCostMultiplierNum : Nat := 6
def refScriptCostMultiplierDen : Nat := 5
def refScriptCostStride : Nat := 25600

/-- The rounds over full strides: each adds a stride at the current price and raises the
price.  `while remaining >= stride` runs once for every full stride of the size. -/
def tierLoop (acc price : Nat × Nat) : Nat → (Nat × Nat) × (Nat × Nat)
  | 0 => (acc, price)
  | strides + 1 =>
    tierLoop (addU128 acc (refScriptCostStride * price.1 % 2 ^ 128, price.2))
      (reduceU128 (price.1 * refScriptCostMultiplierNum % 2 ^ 128,
        price.2 * refScriptCostMultiplierDen % 2 ^ 128))
      strides

/-- The tiered price of reference scripts, rounded down. -/
def tierRefScriptFee (baseFee : UnitInterval) (totalRefScriptSize : Nat) : UInt64 :=
  if totalRefScriptSize = 0 ∨ baseFee.numerator = 0 ∨ baseFee.denominator = 0 then 0
  else
    let (acc, price) := tierLoop (0, 1) (baseFee.numerator.toNat, baseFee.denominator.toNat)
      (totalRefScriptSize / refScriptCostStride)
    let remaining := totalRefScriptSize % refScriptCostStride
    let acc := if 0 < remaining then addU128 acc (remaining * price.1 % 2 ^ 128, price.2) else acc
    .ofNat (acc.1 / acc.2)

def conwayTotalMinFee (refScriptsSize : Nat) : UInt64 :=
  saturatingAdd (totalMinFee params txSizeBytes totalExUnits)
    ((params.minFeeRefScriptCostPerByte.map fun cost =>
      tierRefScriptFee cost refScriptsSize).getD 0)

/-- The declared fee covers the minimum, reference scripts included. -/
def validateConwayFee (refScriptsSize : Nat) (declaredFee : UInt64) : Result Unit :=
  let min := conwayTotalMinFee params txSizeBytes totalExUnits refScriptsSize
  rejectIf (declaredFee < min) (.feeTooSmall min declaredFee)

/-- Execution units stay within the limit of one transaction. -/
def validateTxExUnits (totalExUnits : ExUnits) : Result Unit :=
  match params.maxTxExUnits with
  | none => .ok ()
  | some max =>
    rejectIf (max.mem < totalExUnits.mem ∨ max.steps < totalExUnits.steps)
      (.exUnitsExceedTxLimit totalExUnits.mem totalExUnits.steps max.mem max.steps)

def validateTxSize : Result Unit :=
  rejectIf (params.maxTxSize.toNat < txSizeBytes)
    (.txTooLarge txSizeBytes params.maxTxSize.toNat)

/-! ## Limits on outputs -/

/-- An output of the given size holds at least the minimum. -/
def validateMinUtxoForSize (output : MultiEraTxOut) (serializedSize : Nat) : Result Unit :=
  match params.minLovelaceForUtxo serializedSize with
  | none => .ok ()
  | some minimum =>
    rejectIf (output.coin < minimum) (.outputTooSmall minimum output.coin)

def validateMinUtxo (output : MultiEraTxOut) : Result Unit :=
  validateMinUtxoForSize params output output.innerCborSize

def validateAllOutputsMinUtxo : Result Unit := outputs.forM (validateMinUtxo params)

/-- The same check with the sizes found on the wire. -/
def validateAllOutputsMinUtxoWithSizes (serializedSizes : List Nat) : Result Unit :=
  if outputs.length ≠ serializedSizes.length then
    reject (.cborInvalidLength outputs.length serializedSizes.length)
  else
    (outputs.zip serializedSizes).forM fun sized =>
      validateMinUtxoForSize params sized.1 sized.2

/-- The encoded value of every output stays within the limit. -/
def validateOutputNotTooBig : Result Unit :=
  match params.maxValSize with
  | none => .ok ()
  | some maxVal =>
    outputs.forM fun output =>
      let actual := output.value.encodeCbor.length
      rejectIf (maxVal.toNat < actual) (.outputTooBig actual maxVal.toNat)

/-- No output lists an asset with quantity zero. -/
def validateNoZeroValuedMultiAsset : Result Unit :=
  outputs.forM fun output =>
    output.value.assets.entries.forM fun policy =>
      policy.2.entries.forM fun asset =>
        rejectIf (asset.2 = 0) (.zeroValuedMultiAssetOutput policy.1 asset.1)

def bootAddrAttrsMax : Nat := 64

/-- The attributes of Byron addresses in outputs are short. -/
def validateOutputBootAddrAttrs : Result Unit :=
  outputs.forM fun output => do
    match ← byronAddrAttrsSize output.address with
    | none => return ()
    | some size => rejectIf (bootAddrAttrsMax < size) (.outputBootAddrAttrsTooBig size)

end Yggdrasil.Ledger
