import Yggdrasil.Ledger.EpochBoundary

/-!
# Blocks before scripts

`apply_block_validated` on blocks of the Shelley, Allegra and Mary eras (`state/eras/`).  The
three era functions share their loop: the checks of a transaction, its certificates and
withdrawals, then the transition of the UTxO set.  Shelley works on a set of its own, from which
the set of the other eras is made anew after the block; Allegra and Mary work on that one.

The checks that only accept or refuse stay abstract, as in the eras with scripts, and so do the
decoders, the collection of parameter proposals and the count of produced blocks.
-/

namespace Yggdrasil.Ledger

open Library KeyedMap

inductive EarlyEra where
  | shelley
  | allegra
  | mary
deriving DecidableEq, Repr

namespace EarlyEra

def era : EarlyEra → Era
  | shelley => .shelley
  | allegra => .allegra
  | mary => .mary

def eraMinProtocolMajor : EarlyEra → UInt64
  | shelley => 2
  | allegra => 3
  | mary => 4

end EarlyEra

/-- A block of an era without scripts. -/
structure EarlyBlock where
  era : EarlyEra
  header : BlockHeader
  protocolVersion : Option (UInt64 × UInt64)
  headerCborSize : Option Nat
  transactions : List Tx
deriving DecidableEq, Repr

/-- A decoded transaction; `More` is what only abstract checks read. -/
structure EarlyTx (Body More : Type) where
  id : TxId
  size : Nat
  body : Body
  certificates : Option (List Certificate)
  withdrawals : Option (List (RewardAccount × UInt64))
  witnessBytes : Option Bytes
  auxiliaryData : Option Bytes
  more : More

/-- What stays abstract in an era. -/
structure EraRules (Utxo Body More : Type) where
  decode : Tx → Result (EarlyTx Body More)
  /-- Auxiliary data, sizes and fees, networks, witnesses and native scripts. -/
  check : BoundaryState → SlotNo → Utxo → EarlyTx Body More → Result Unit
  /-- Parameter proposals of a block, after its last transaction. -/
  collectProposals : SlotNo → BoundaryState → List (EarlyTx Body More) → Result EpochState

structure EarlyRules (More : Type) where
  shelley : EraRules ShelleyUtxo ShelleyTxBody More
  allegra : EraRules MultiEraUtxo AllegraTxBody More
  mary : EraRules MultiEraUtxo MaryTxBody More
  recordProducer : EarlyBlock → BoundaryState → EpochState

/-! ## The set of Shelley -/

namespace ShelleyUtxo

/-- The lovelace of the inputs; all of them have to be there. -/
def sumInputs (utxo : ShelleyUtxo) : List ShelleyTxIn → UInt64 → Result UInt64
  | [], total => .ok total
  | input :: rest, total =>
    match utxo.lookup input with
    | none => reject .inputNotInUtxo
    | some output => sumInputs utxo rest (saturatingAdd total output.amount)

/-- `apply_tx_with_withdrawals`: unlike the set of the other eras, this one adds with
saturation. -/
def applyTxWithWithdrawals (utxo : ShelleyUtxo) (txId : TxId) (currentSlot : SlotNo)
    (withdrawalTotal deposits refunds : UInt64) (body : ShelleyTxBody) : Result ShelleyUtxo := do
  rejectIf body.inputs.isEmpty .noInputs
  rejectIf (¬ body.inputs.Nodup) .duplicateInput
  rejectIf (body.ttl < currentSlot) (.txExpired body.ttl currentSlot)
  let consumed ← sumInputs utxo body.inputs 0
  let produced := (body.outputs.map (·.amount)).foldl saturatingAdd 0
  let available := saturatingAdd (saturatingAdd consumed withdrawalTotal) refunds
  rejectIf (available ≠ saturatingAdd (saturatingAdd produced body.fee) deposits)
    (.valueNotPreserved available produced body.fee)
  return insertAll (body.outputs.zipIdx.map fun output =>
    (⟨txId, .ofNat output.2⟩, output.1)) (eraseAll body.inputs utxo)

end ShelleyUtxo

/-- The set of the other eras, made from that of Shelley. -/
def MultiEraUtxo.fromShelleyUtxo (utxo : ShelleyUtxo) : MultiEraUtxo :=
  insertAll ((pairs utxo).map fun entry => (entry.1, entry.2.toMultiEra)) ∅

/-- `maybe_activate_pending_shelley_genesis` on the set of Shelley: it takes over what Byron left
and the funds of the genesis. -/
def translateShelleyUtxo (state : BoundaryState) : BoundaryState :=
  if state.currentEra = .byron then
    let translated := (pairs state.multiEraUtxo).filterMap fun entry =>
      match entry.2 with
      | .shelley address amount => some (entry.1, (⟨address, amount⟩ : ShelleyTxOut))
      | _ => none
    let funds := (state.rest.pendingShelleyGenesisUtxo.getD []).map fun entry =>
      (entry.1, (⟨entry.2.1, entry.2.2⟩ : ShelleyTxOut))
    { state with
      rest := { state.rest with
        other := { state.rest.other with
          shelleyUtxo := insertAll (translated ++ funds) state.rest.other.shelleyUtxo } } }
  else state

/-! ## A block -/

section

variable {Utxo Body More : Type}

variable (rules : EarlyRules More) (state : BoundaryState) (block : EarlyBlock)

/-- What the certificate rule reads in a block without scripts. -/
def earlyCertEnv (slot : SlotNo) (txIndex : Nat) : CertEnv ProtocolParameterUpdate where
  context := certificateValidationContext state
  governanceActions := state.rest.governanceActions
  currentSlot := slot
  txIndex := .ofNat txIndex
  stabilityWindow := state.rest.stabilityWindow
  mirContext := mirValidationContext state.rest slot false

/-- The transition of a UTxO set by a transaction, given its withdrawals, deposits and refunds. -/
abbrev Transition (Utxo Body : Type) :=
  Utxo → TxId → SlotNo → UInt64 → UInt64 → UInt64 → Body → Result Utxo

def applyEarlyTx (transition : Transition Utxo Body) (rules : EraRules Utxo Body More)
    (state : BoundaryState) (slot : SlotNo) (staged : Utxo × CertState)
    (tx : EarlyTx Body More × Nat) : Result (Utxo × CertState) := do
  rules.check state slot staged.1 tx.1
  let (certified, adjustments) ← applyCertificatesAndWithdrawals (earlyCertEnv state slot tx.2)
    staged.2 tx.1.certificates tx.1.withdrawals
  let utxo ← transition staged.1 tx.1.id slot adjustments.withdrawalTotal
    adjustments.totalDeposits adjustments.totalRefunds tx.1.body
  return (utxo, certified)

/-- Parameter proposals and instantaneous rewards, after the last transaction. -/
def finishEarlyBlock (rules : EraRules Utxo Body More) (slot : SlotNo) (state : BoundaryState)
    (txs : List (EarlyTx Body More)) : Result BoundaryState := do
  let other ← rules.collectProposals slot state txs
  return { state with
    rest := { state.rest with
      other := other
      instantaneousRewards := txs.foldl (fun rewards tx =>
        accumulateMirFromCerts rewards (tx.certificates.getD []))
        state.rest.instantaneousRewards } }

/-- The pattern of the three era functions: `utxo` is the set they start from, `commit` puts the
set they end with in its place. -/
def applyEarlyTransactions (transition : Transition Utxo Body) (rules : EraRules Utxo Body More)
    (utxo : Utxo) (commit : Utxo → BoundaryState → BoundaryState) (state : BoundaryState)
    (block : EarlyBlock) : Result BoundaryState :=
  if block.transactions.isEmpty then .ok state
  else do
    let decoded ← block.transactions.mapM rules.decode
    let staged ← decoded.zipIdx.foldlM
      (applyEarlyTx transition rules state block.header.slotNo) (utxo, state.rest.toCertState)
    finishEarlyBlock rules block.header.slotNo
      (commit staged.1 { state with rest := { state.rest with toCertState := staged.2 } }) decoded

/-- Shelley replaces both sets. -/
def applyShelleyBlock : Result BoundaryState :=
  applyEarlyTransactions ShelleyUtxo.applyTxWithWithdrawals rules.shelley
    state.rest.other.shelleyUtxo
    (fun utxo state => { state with
      multiEraUtxo := .fromShelleyUtxo utxo
      rest := { state.rest with other := { state.rest.other with shelleyUtxo := utxo } } })
    state block

def applyAllegraBlock : Result BoundaryState :=
  applyEarlyTransactions applyAllegraTxWithdrawals rules.allegra state.multiEraUtxo
    (fun utxo state => { state with multiEraUtxo := utxo }) state block

def applyMaryBlock : Result BoundaryState :=
  applyEarlyTransactions applyMaryTxWithdrawals rules.mary state.multiEraUtxo
    (fun utxo state => { state with multiEraUtxo := utxo }) state block

/-- The function of the block's era. -/
def applyEarlyEraBlock : Result BoundaryState :=
  match block.era with
  | .shelley => applyShelleyBlock rules state block
  | .allegra => applyAllegraBlock rules state block
  | .mary => applyMaryBlock rules state block

/-- `adopt_block_protocol_version_for_validation`. -/
def adoptEarlyProtocolVersion (block : EarlyBlock) (state : BoundaryState) : BoundaryState :=
  match block.protocolVersion, state.protocolParams with
  | some version, some params =>
    let minMajor := block.era.eraMinProtocolMajor
    if version.1 < minMajor then state
    else if params.protocolVersion.all fun current => current.1 < minMajor then
      { state with
        protocolParams := some { params with protocolVersion := some (minMajor, 0) } }
    else state
  | _, _ => state

/-- A block leaves the parameters or raises their version. -/
theorem adoptEarlyProtocolVersion_cases (block : EarlyBlock) (state : BoundaryState) :
    adoptEarlyProtocolVersion block state = state ∨ ∃ params minMajor, state.protocolParams = some params ∧
      (params.protocolVersion.all fun current => current.1 < minMajor) = true ∧
      adoptEarlyProtocolVersion block state = { state with
        protocolParams := some { params with protocolVersion := some (minMajor, 0) } } := by
  unfold adoptEarlyProtocolVersion
  split
  · next hparams =>
    dsimp only
    split
    · exact .inl rfl
    · split
      · next hlower => exact .inr ⟨_, _, hparams, hlower, rfl⟩
      · exact .inl rfl
  · exact .inl rfl

theorem rest_adoptEarlyProtocolVersion (block : EarlyBlock) (state : BoundaryState) :
    (adoptEarlyProtocolVersion block state).rest = state.rest := by
  obtain hsame | ⟨_, _, -, -, hraised⟩ := adoptEarlyProtocolVersion_cases block state
  · rw [hsame]
  · rw [hraised]

def checkEarlyBlockSizes (params : ProtocolParameters) : Result Unit := do
  let bodySize := (block.transactions.map Tx.serializedSize).sum
  rejectIf (params.maxBlockBodySize.toNat < bodySize)
    (.blockTooLarge bodySize params.maxBlockBodySize.toNat)
  block.headerCborSize.forM fun headerSize =>
    rejectIf (params.maxBlockHeaderSize.toNat < headerSize)
      (.headerTooLarge headerSize params.maxBlockHeaderSize.toNat)

/-- `apply_block_validated` on a block without scripts. -/
def applyEarlyBlockValidated : Result BoundaryState := do
  state.tip.slot.forM fun tipSlot =>
    rejectIf (block.header.slotNo ≤ tipSlot) (.slotNotIncreasing tipSlot block.header.slotNo)
  rejectIf (state.tip ≠ .origin ∧ state.currentEra.isEraRegression block.era.era)
    .blockEraRegression
  let prepared := prepareBlock block.header.slotNo (translateShelleyUtxo state)
  prepared.protocolParams.forM (checkEarlyBlockSizes block)
  let applied ← applyEarlyEraBlock rules (adoptEarlyProtocolVersion block prepared) block
  return { applied with
    rest := { applied.rest with other := rules.recordProducer block applied }
    currentEra := block.era.era
    tip := .blockPoint block.header.slotNo block.header.hash }

end

end Yggdrasil.Ledger
