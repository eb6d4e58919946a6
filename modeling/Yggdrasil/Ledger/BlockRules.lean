import Yggdrasil.Ledger.Collateral
import Yggdrasil.Ledger.Witnesses

/-!
# Applying a block with scripts

`apply_block_validated` (`state.rs`) and the era functions behind it for Alonzo, Babbage and
Conway (`state/eras/`): a block's transactions are decoded, checked one after another against a
staged UTxO set, and each moves that set by its spending inputs or, when its scripts failed, by
its collateral inputs.

Modelled are the order of the rules, the size, fee, output and collateral checks, the required
and provided key witnesses, the phase-2 branch and both UTxO transitions.  The rule families
that neither choose nor authorize the removed inputs are parameters (`Rules`), and so are the
byte decoders (`Codec`): every result below holds whatever they answer.
-/

namespace Yggdrasil.Ledger

open Library

inductive Era where
  | byron
  | shelley
  | allegra
  | mary
  | alonzo
  | babbage
  | conway
deriving DecidableEq, Repr

namespace Era

def eraOrdinal : Era → Nat
  | byron => 0
  | shelley => 1
  | allegra => 2
  | mary => 3
  | alonzo => 4
  | babbage => 5
  | conway => 6

/-- A block of an earlier era than the ledger's. -/
def isEraRegression (ledgerEra blockEra : Era) : Bool := blockEra.eraOrdinal < ledgerEra.eraOrdinal

end Era

namespace ScriptEra

def era : ScriptEra → Era
  | alonzo => .alonzo
  | babbage => .babbage
  | conway => .conway

def eraMinProtocolMajor : ScriptEra → UInt64
  | alonzo => 5
  | babbage => 7
  | conway => 9

end ScriptEra

/-- A transaction as a block carries it. -/
structure Tx where
  id : TxId
  body : Bytes
  witnesses : Option Bytes
  auxiliaryData : Option Bytes
  isValid : Option Bool
deriving DecidableEq, Repr

/-- The size of body, witnesses and auxiliary data; what is absent is a null byte. -/
def Tx.serializedSize (tx : Tx) : Nat :=
  1 + tx.body.length + (tx.witnesses.map List.length).getD 1 +
    (tx.auxiliaryData.map List.length).getD 1

/-- A block of an era with scripts. -/
structure ScriptBlock where
  era : ScriptEra
  header : BlockHeader
  protocolVersion : Option (UInt64 × UInt64)
  headerCborSize : Option Nat
  transactions : List Tx
deriving DecidableEq, Repr

/-- The ledger state; `Rest` is what only the abstract rule families read and write. -/
structure LedgerState (Rest : Type) where
  tip : Point
  currentEra : Era
  protocolParams : Option ProtocolParameters
  /-- The delegates of the genesis keys. -/
  genDelegs : KeyedMap Hash28 Hash28
  multiEraUtxo : MultiEraUtxo
  rest : Rest

/-- A transaction after its body is decoded. -/
structure DecodedTx (Extra : Type) where
  id : TxId
  size : Nat
  body : TxBody Extra
  outputRawSizes : Option (List Nat)
  collateralReturnRawSize : Option Nat
  witnessBytes : Option Bytes
  auxiliaryData : Option Bytes
  isValid : Option Bool

namespace DecodedTx

variable {Extra : Type}

/-- An absent flag means valid. -/
def txIsValid (tx : DecodedTx Extra) : Bool := tx.isValid.getD true

/-- The collateral return; Alonzo bodies have none. -/
def collateralReturn (era : ScriptEra) (tx : DecodedTx Extra) : Option BabbageTxOut :=
  if era = .alonzo then none else tx.body.collateralReturn

/-- The inputs that the transaction takes out of the set. -/
def removedInputs (tx : DecodedTx Extra) : List ShelleyTxIn :=
  if tx.txIsValid then tx.body.inputs else tx.body.collateral.getD []

/-- The arguments with which each era calls `validate_alonzo_plus_tx`. -/
def checks (era : ScriptEra) (utxo : MultiEraUtxo) (totalEu : Option ExUnits)
    (tx : DecodedTx Extra) : AlonzoPlusTx where
  txBodySize := tx.size
  declaredFee := tx.body.fee
  outputs := tx.body.outputs
  outputRawSizes := tx.outputRawSizes
  collateralInputs := tx.body.collateral
  totalExUnits := totalEu
  collateralReturn := (tx.collateralReturn era).map .babbage
  collateralReturnRawSize := tx.collateralReturnRawSize
  totalCollateral := if era = .alonzo then none else tx.body.totalCollateral
  hasRedeemers := totalEu.isSome
  refScriptsSize := if era = .conway then refScriptsSize utxo.lookup tx.body.allInputs else 0
  enforceCollateralInputLimit := era ≠ .alonzo

end DecodedTx

/-- The byte decoders. -/
structure Codec (Extra : Type) where
  body : ScriptEra → Bytes → Result (TxBody Extra)
  /-- The sizes on the wire of the outputs and of the collateral return, from Babbage on. -/
  outputRawSizes : Bytes → Result (List Nat × Option Nat)
  witnessSet : Bytes → Result WitnessSet

/-- What a rule can read about a transaction in a block. -/
structure RuleContext (Rest Extra Evaluator : Type) where
  state : LedgerState Rest
  era : ScriptEra
  slot : SlotNo
  evaluator : Option Evaluator
  txIndex : Nat
  utxo : MultiEraUtxo
  rest : Rest
  tx : DecodedTx Extra

/-- What certificates and withdrawals contribute to the balance of a transaction. -/
structure Adjustments where
  withdrawalTotal : UInt64
  totalDeposits : UInt64
  totalRefunds : UInt64
deriving DecidableEq, Repr

/-- The rule families that stay abstract. -/
structure Rules (Rest Extra Evaluator : Type) where
  /-- `maybe_activate_pending_shelley_genesis` and `adopt_scheduled_genesis_delegations`. -/
  prepare : ScriptEra → SlotNo → LedgerState Rest → LedgerState Rest
  /-- Auxiliary data, script well-formedness, reference inputs, script data hash. -/
  integrity : RuleContext Rest Extra Evaluator → Result Unit
  /-- Network ids of outputs, withdrawals and the body. -/
  network : RuleContext Rest Extra Evaluator → Result Unit
  /-- Genesis quorum, native scripts, script witnesses, datums and redeemers. -/
  scripts : RuleContext Rest Extra Evaluator → Result Unit
  /-- `run_phase2`. -/
  phase2 : RuleContext Rest Extra Evaluator → Result Unit
  /-- Treasury value, governance, certificates and withdrawals. -/
  effects : RuleContext Rest Extra Evaluator → Result (Rest × Adjustments)
  /-- Parameter proposals and instantaneous rewards, after the last transaction. -/
  finish : ScriptEra → SlotNo → LedgerState Rest → List (DecodedTx Extra) → Result Rest
  /-- `record_block_producer_for_block`. -/
  recordProducer : ScriptBlock → LedgerState Rest → Rest

/-! ## Execution units -/

/-- The execution units of all redeemers, `none` without redeemers. -/
def sumRedeemerExUnits (witnesses : WitnessSet) : Option ExUnits :=
  if witnesses.redeemers.isEmpty then none
  else some (witnesses.redeemers.foldl (fun total redeemer =>
    ⟨saturatingAdd total.mem redeemer.mem, saturatingAdd total.steps redeemer.steps⟩) ⟨0, 0⟩)

/-- Each redeemer stays within the limit of one transaction. -/
def validatePerRedeemerExUnits (params : ProtocolParameters) (witnesses : WitnessSet) :
    Result Unit :=
  witnesses.redeemers.forM (validateTxExUnits params)

section

variable {Rest Extra Evaluator : Type}

variable (crypto : Crypto) (codec : Codec Extra) (rules : Rules Rest Extra Evaluator)
  (state : LedgerState Rest) (block : ScriptBlock) (context : RuleContext Rest Extra Evaluator)

/-- The decoded witness set, when there are witness bytes that decode. -/
def witnessSetFromBytes : Option Bytes → Result (Option WitnessSet)
  | none => .ok none
  | some bytes => Result.toOption (codec.witnessSet bytes)

def sumRedeemerExUnitsFromBytes (witnessBytes : Option Bytes) : Result (Option ExUnits) := do
  return (← witnessSetFromBytes codec witnessBytes).bind sumRedeemerExUnits

/-- The execution units of all transactions stay within the limit of a block. -/
def validateBlockExUnits (params : Option ProtocolParameters) (txs : List (DecodedTx Extra)) :
    Result Unit :=
  match params.bind (·.maxBlockExUnits) with
  | none => .ok ()
  | some max => do
    let total ← txs.foldlM (fun (total : ExUnits) tx => do
      match ← sumRedeemerExUnitsFromBytes codec tx.witnessBytes with
      | none => return total
      | some eu => return ⟨saturatingAdd total.mem eu.mem, saturatingAdd total.steps eu.steps⟩)
      ⟨0, 0⟩
    rejectIf (max.mem < total.mem ∨ max.steps < total.steps)
      (.blockExUnitsExceeded total.mem total.steps max.mem max.steps)

/-- The outputs that a transaction adds to the running set of reference scripts. -/
def overlayOutputs (tx : DecodedTx Extra) : List (ShelleyTxIn × MultiEraTxOut) :=
  if tx.txIsValid then
    tx.body.outputs.zipIdx.map fun output => (⟨tx.id, .ofNat output.2⟩, output.1)
  else
    tx.body.collateralReturn.toList.map fun output =>
      (⟨tx.id, .ofNat tx.body.outputs.length⟩, .babbage output)

/-- Reference-script bytes of a block with each transaction's outputs visible to the next. -/
def runningRefScriptsSize (lookup : ShelleyTxIn → Option MultiEraTxOut) :
    List (DecodedTx Extra) → Nat
  | [] => 0
  | tx :: rest =>
    refScriptsSize lookup tx.body.allInputs +
      runningRefScriptsSize ((overlayOutputs tx).foldl
        (fun lookup entry => Function.update lookup entry.1 (some entry.2)) lookup) rest

/-- The limit on reference scripts in a Conway block; from version 11 on with running outputs. -/
def validateBlockRefScripts (txs : List (DecodedTx Extra)) : Result Unit :=
  let postPv10 := (state.protocolParams.bind (·.protocolVersion)).any fun version =>
    10 < version.1
  let total :=
    if postPv10 then runningRefScriptsSize state.multiEraUtxo.lookup txs
    else (txs.map fun tx => refScriptsSize state.multiEraUtxo.lookup tx.body.allInputs).sum
  rejectIf (maxRefScriptSizePerBlock < total)
    (.bodyRefScriptsSizeTooBig total maxRefScriptSizePerBlock)

/-! ## One transaction -/

/-- What the loop over the transactions moves. -/
structure Staged (Rest : Type) where
  utxo : MultiEraUtxo
  rest : Rest

/-- The checks against the protocol parameters, when there are any. -/
def checkAgainstParams : Result Unit := do
  let totalEu ← sumRedeemerExUnitsFromBytes codec context.tx.witnessBytes
  match context.state.protocolParams with
  | none => return ()
  | some params =>
    validateAlonzoPlusTx params context.utxo (context.tx.checks context.era context.utxo totalEu)
    match ← witnessSetFromBytes codec context.tx.witnessBytes with
    | none => return ()
    | some witnesses => validatePerRedeemerExUnits params witnesses

/-- The key witnesses of a transaction; without witness bytes nothing is checked. -/
def checkKeyWitnesses : Result Unit := do
  let required ← requiredVkeyHashes context.era context.state.genDelegs context.utxo
    context.tx.body
  match context.tx.witnessBytes with
  | none => return ()
  | some bytes => do
    validateWitnesses crypto (← codec.witnessSet bytes) required context.tx.id

/-- Two hexadecimal digits for every byte. -/
def hexOfBytes (bytes : Bytes) : String :=
  String.ofList (bytes.flatMap fun byte =>
    [Nat.digitChar (byte.toNat / 16), Nat.digitChar (byte.toNat % 16)])

def phase2FailureReason (hash : Hash28) (reason : String) : String :=
  "script " ++ hexOfBytes (bytesOfDigest 28 hash) ++ " failed: " ++ reason

/-- A transaction that claims its scripts succeed: a failing script is a wrong claim. -/
def checkClaimedValid : Result Unit :=
  match rules.phase2 context with
  | .error (.error (.plutusScriptFailed hash reason)) =>
    if context.evaluator.isSome then
      reject (.validationTagMismatch true false (phase2FailureReason hash reason))
    else
      reject (.plutusScriptFailed hash reason)
  | outcome => outcome

/-- A transaction that claims its scripts fail: with an evaluator a script has to fail. -/
def checkClaimedInvalid : Result Unit :=
  if context.evaluator.isSome then
    match rules.phase2 context with
    | .ok () => reject (.validationTagMismatch false true "phase-2 unexpectedly succeeded")
    | .error (.error (.plutusScriptFailed _ _)) => .ok ()
    | .error failure => .error failure
  else
    .ok ()

/-- The rules of Conway's valid branch on reference scripts. -/
def checkConwayRefScripts : Result Unit :=
  let actual := refScriptsSize context.utxo.lookup context.tx.body.allInputs
  rejectIf (context.era = .conway ∧ maxRefScriptSizePerTx < actual)
    (.txRefScriptsSizeTooBig actual maxRefScriptSizePerTx)

/-- The valid branch: effects, then the transition by the spending inputs. -/
def applyValidTx : Result (Staged Rest) := do
  checkClaimedValid rules context
  checkConwayRefScripts context
  let (rest, adjustments) ← rules.effects context
  let utxo ← applyTxWithdrawals context.era context.utxo context.tx.id context.tx.body
    context.slot adjustments.withdrawalTotal adjustments.totalDeposits adjustments.totalRefunds
  rejectIf (context.era = .conway ∧ context.tx.body.treasuryDonation = some 0) .zeroDonation
  return ⟨utxo, rest⟩

/-- The invalid branch: only collateral moves. -/
def applyInvalidTx : Result (Staged Rest) := do
  checkClaimedInvalid rules context
  return ⟨applyCollateralOnly context.utxo context.tx.id context.tx.body.collateral
    (context.tx.collateralReturn context.era) context.tx.body.outputs.length, context.rest⟩

def applyTx : Result (Staged Rest) := do
  rules.integrity context
  checkAgainstParams codec context
  rules.network context
  checkKeyWitnesses crypto codec context
  rules.scripts context
  if context.tx.txIsValid then applyValidTx rules context else applyInvalidTx rules context

variable {crypto codec rules context} in
theorem applyTx_cases {next : Staged Rest} (hrun : applyTx crypto codec rules context = .ok next) :
    (context.tx.txIsValid = true ∧ ∃ adjustments,
      rules.effects context = .ok (next.rest, adjustments) ∧
      applyTxWithdrawals context.era context.utxo context.tx.id context.tx.body context.slot
        adjustments.withdrawalTotal adjustments.totalDeposits adjustments.totalRefunds =
        .ok next.utxo) ∨
    (¬context.tx.txIsValid = true ∧ next = ⟨applyCollateralOnly context.utxo context.tx.id
      context.tx.body.collateral (context.tx.collateralReturn context.era)
      context.tx.body.outputs.length, context.rest⟩) := by
  unfold applyTx at hrun
  simp only [bind_eq_ok] at hrun
  obtain ⟨_, _, _, _, _, _, _, _, _, _, hbranch⟩ := hrun
  split at hbranch
  case isTrue hvalid =>
    unfold applyValidTx at hbranch
    simp only [bind_eq_ok] at hbranch
    obtain ⟨_, _, _, _, ⟨rest, adjustments⟩, heffects, utxo, htransition, _, _, ⟨⟩⟩ := hbranch
    exact .inl ⟨hvalid, adjustments, heffects, htransition⟩
  case isFalse hfailed =>
    obtain ⟨_, _, ⟨⟩⟩ := bind_eq_ok.mp hbranch
    exact .inr ⟨hfailed, rfl⟩

/-! ## A block -/

def applyTxs (crypto : Crypto) (codec : Codec Extra) (rules : Rules Rest Extra Evaluator)
    (state : LedgerState Rest) (era : ScriptEra) (slot : SlotNo) (evaluator : Option Evaluator) :
    Nat → Staged Rest → List (DecodedTx Extra) → Result (Staged Rest)
  | _, staged, [] => .ok staged
  | index, staged, tx :: later => do
    let next ← applyTx crypto codec rules
      ⟨state, era, slot, evaluator, index, staged.utxo, staged.rest, tx⟩
    applyTxs crypto codec rules state era slot evaluator (index + 1) next later

/-- Output sizes on the wire; Alonzo has none. -/
def rawSizes (era : ScriptEra) (body : Bytes) : Result (Option (List Nat) × Option Nat) :=
  match era with
  | .alonzo => .ok (none, none)
  | _ => do
    let sizes ← codec.outputRawSizes body
    return (some sizes.1, sizes.2)

def decodeTx (era : ScriptEra) (tx : Tx) : Result (DecodedTx Extra) := do
  let body ← codec.body era tx.body
  let sizes ← rawSizes codec era tx.body
  return {
    id := tx.id
    size := tx.serializedSize
    body := body
    outputRawSizes := sizes.1
    collateralReturnRawSize := sizes.2
    witnessBytes := tx.witnesses
    auxiliaryData := tx.auxiliaryData
    isValid := tx.isValid }

/-- `apply_alonzo_block`, `apply_babbage_block` and `apply_conway_block`. -/
def applyEraBlock (evaluator : Option Evaluator) : Result (LedgerState Rest) :=
  if block.transactions.isEmpty then
    .ok state
  else do
    let decoded ← block.transactions.mapM (decodeTx codec block.era)
    validateBlockExUnits codec state.protocolParams decoded
    if block.era = .conway then
      validateBlockRefScripts state decoded
    let staged ← applyTxs crypto codec rules state block.era block.header.slotNo evaluator 0
      ⟨state.multiEraUtxo, state.rest⟩ decoded
    let state := { state with multiEraUtxo := staged.utxo, rest := staged.rest }
    return { state with rest := ← rules.finish block.era block.header.slotNo state decoded }

/-- `adopt_block_protocol_version_for_validation`: a block of a new era raises the major
version of the parameters to the least one of the era. -/
def adoptBlockProtocolVersion (block : ScriptBlock) (state : LedgerState Rest) : LedgerState Rest :=
  match block.protocolVersion, state.protocolParams with
  | some version, some params =>
    let minMajor := block.era.eraMinProtocolMajor
    if version.1 < minMajor then state
    else if params.protocolVersion.all fun current => current.1 < minMajor then
      { state with
        protocolParams := some { params with protocolVersion := some (minMajor, 0) } }
    else state
  | _, _ => state

/-- A block leaves the parameters or raises their version. -/
theorem adoptBlockProtocolVersion_cases (block : ScriptBlock) (state : LedgerState Rest) :
    adoptBlockProtocolVersion block state = state ∨ ∃ params minMajor, state.protocolParams = some params ∧
      (params.protocolVersion.all fun current => current.1 < minMajor) = true ∧
      adoptBlockProtocolVersion block state = { state with
        protocolParams := some { params with protocolVersion := some (minMajor, 0) } } := by
  unfold adoptBlockProtocolVersion
  split
  · next hparams =>
    dsimp only
    split
    · exact .inl rfl
    · split
      · next hlower => exact .inr ⟨_, _, hparams, hlower, rfl⟩
      · exact .inl rfl
  · exact .inl rfl

/-- The limits on the sizes of a block. -/
def checkBlockSizes (params : ProtocolParameters) : Result Unit := do
  let bodySize := (block.transactions.map Tx.serializedSize).sum
  rejectIf (params.maxBlockBodySize.toNat < bodySize)
    (.blockTooLarge bodySize params.maxBlockBodySize.toNat)
  block.headerCborSize.forM fun headerSize =>
    rejectIf (params.maxBlockHeaderSize.toNat < headerSize)
      (.headerTooLarge headerSize params.maxBlockHeaderSize.toNat)

/-- The state in which the transactions of a block are applied. -/
def enterBlock : LedgerState Rest :=
  adoptBlockProtocolVersion block (rules.prepare block.era block.header.slotNo state)

/-- `apply_block_validated` on a block with scripts. -/
def applyBlockValidated (evaluator : Option Evaluator) : Result (LedgerState Rest) := do
  state.tip.slot.forM fun tipSlot =>
    rejectIf (block.header.slotNo ≤ tipSlot) (.slotNotIncreasing tipSlot block.header.slotNo)
  rejectIf (state.tip ≠ .origin ∧ state.currentEra.isEraRegression block.era.era)
    .blockEraRegression
  (rules.prepare block.era block.header.slotNo state).protocolParams.forM (checkBlockSizes block)
  let applied ← applyEraBlock crypto codec rules (enterBlock rules state block) block evaluator
  return { applied with
    rest := rules.recordProducer block applied
    currentEra := block.era.era
    tip := .blockPoint block.header.slotNo block.header.hash }

/-! ## What an accepted block went through -/

/-- A block that is not empty decodes, runs its transactions and is finished. -/
theorem applyEraBlock_eq_ok {crypto : Crypto} {codec : Codec Extra}
    {rules : Rules Rest Extra Evaluator} {state applied : LedgerState Rest} {block : ScriptBlock}
    {evaluator : Option Evaluator} {decoded : List (DecodedTx Extra)}
    (hsome : ¬ block.transactions.isEmpty)
    (hdecoded : block.transactions.mapM (decodeTx codec block.era) = .ok decoded)
    (hblock : applyEraBlock crypto codec rules state block evaluator = .ok applied) :
    ∃ staged rest, applyTxs crypto codec rules state block.era block.header.slotNo evaluator 0
        ⟨state.multiEraUtxo, state.rest⟩ decoded = .ok staged ∧
      rules.finish block.era block.header.slotNo
        { state with multiEraUtxo := staged.utxo, rest := staged.rest } decoded = .ok rest ∧
      applied = { state with multiEraUtxo := staged.utxo, rest := rest } := by
  unfold applyEraBlock at hblock
  rw [if_neg hsome, hdecoded] at hblock
  obtain ⟨_, hlist, hblock⟩ := bind_eq_ok.mp hblock
  cases hlist
  obtain ⟨_, _, hblock⟩ := bind_eq_ok.mp hblock
  split at hblock
  all_goals
    simp only [bind_eq_ok] at hblock
  · obtain ⟨_, _, staged, hall, rest, hfinish, hreturn⟩ := hblock
    cases hreturn
    exact ⟨staged, rest, hall, hfinish, rfl⟩
  · obtain ⟨staged, hall, rest, hfinish, hreturn⟩ := hblock
    cases hreturn
    exact ⟨staged, rest, hall, hfinish, rfl⟩

end

end Yggdrasil.Ledger
