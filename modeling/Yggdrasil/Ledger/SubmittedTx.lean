import Yggdrasil.Ledger.BlockRules

/-!
# Submitted transactions

`apply_submitted_tx` (`state.rs`) on a Conway transaction.  It calls the same rules as a block but
not with the same arguments.  Submission looks at the witness set encoded anew, measures the whole
submitted array, gives every transaction the place 0, and reads the state that the transactions
before it have left; a block looks at the bytes on the wire, counts the places, and reads the state
before the block.

Where the order of two checks only decides which error is returned, it is that of the block: the
declared treasury value, which submission checks before phase 2, stays part of `effects`.
-/

namespace Yggdrasil.Ledger

/-- The decoders, with what else the node computes from the bytes of a submitted transaction. -/
structure SubmissionCodec (Extra : Type) extends Codec Extra where
  /-- `compute_tx_id`. -/
  txId : Bytes → TxId
  /-- The bytes of a witness set, decoded and encoded anew. -/
  reencodeWitnesses : Bytes → Bytes

/-- A submitted Conway transaction by the bytes of its parts: the head of the array, the body,
the witness set, the flag and the auxiliary data.  Body and witness set have been decoded. -/
structure SubmittedTx {Extra : Type} (codec : SubmissionCodec Extra) where
  arrayHead : Bytes
  rawBody : Bytes
  rawWitnesses : Bytes
  isValid : Bool
  auxiliaryData : Option Bytes
  body : TxBody Extra
  witnessSet : WitnessSet
  body_decodes : codec.body .conway rawBody = .ok body
  witnessSet_decodes : codec.witnessSet rawWitnesses = .ok witnessSet

namespace SubmittedTx

variable {Extra : Type} {codec : SubmissionCodec Extra}

/-- The identifier is computed from the body as it came. -/
def txId (tx : SubmittedTx codec) : TxId := codec.txId tx.rawBody

/-- The bytes of the whole array. -/
def rawCbor (tx : SubmittedTx codec) : Bytes :=
  tx.arrayHead ++ tx.rawBody ++ tx.rawWitnesses ++ [if tx.isValid then 0xf5 else 0xf4] ++
    tx.auxiliaryData.getD [0xf6]

/-- The size for fee and limit leaves out the flag. -/
def sizeForFeeAndMax (tx : SubmittedTx codec) : Nat := tx.rawCbor.length - 1

/-- The transaction as the rules see it, given the sizes of its outputs. -/
def decoded (tx : SubmittedTx codec) (sizes : Option (List Nat) × Option Nat) :
    DecodedTx Extra where
  id := tx.txId
  size := tx.sizeForFeeAndMax
  body := tx.body
  outputRawSizes := sizes.1
  collateralReturnRawSize := sizes.2
  witnessBytes := some (codec.reencodeWitnesses tx.rawWitnesses)
  auxiliaryData := tx.auxiliaryData
  isValid := some tx.isValid

end SubmittedTx

section

variable {Rest Extra Evaluator : Type} {codec : SubmissionCodec Extra}

/-- The sizes of the outputs are read only when there are parameters. -/
def submittedRawSizes (state : LedgerState Rest) (tx : SubmittedTx codec) :
    Result (Option (List Nat) × Option Nat) :=
  match state.protocolParams with
  | none => .ok (none, none)
  | some _ => rawSizes codec.toCodec .conway tx.rawBody

/-- What the rules read about a submitted transaction. -/
def submittedContext (state : LedgerState Rest) (slot : SlotNo) (evaluator : Option Evaluator)
    (tx : DecodedTx Extra) : RuleContext Rest Extra Evaluator where
  state := state
  era := .conway
  slot := slot
  evaluator := evaluator
  txIndex := 0
  utxo := state.multiEraUtxo
  rest := state.rest
  tx := tx

/-- The checks against the parameters, with the decoded witness set. -/
def checkSubmittedParams (context : RuleContext Rest Extra Evaluator) (witnesses : WitnessSet) :
    Result Unit :=
  match context.state.protocolParams with
  | none => .ok ()
  | some params => do
    validateAlonzoPlusTx params context.utxo
      (context.tx.checks .conway context.utxo (sumRedeemerExUnits witnesses))
    validatePerRedeemerExUnits params witnesses

/-- `validate_witnesses_typed`. -/
def checkSubmittedWitnesses (crypto : Crypto) (context : RuleContext Rest Extra Evaluator)
    (witnesses : WitnessSet) : Result Unit := do
  let required ← requiredVkeyHashes .conway context.state.genDelegs context.utxo context.tx.body
  validateWitnesses crypto witnesses required context.tx.id

/-- The rules on a submitted transaction that claims to be valid. -/
def applySubmittedRules (crypto : Crypto) (rules : Rules Rest Extra Evaluator)
    (context : RuleContext Rest Extra Evaluator) (witnesses : WitnessSet) :
    Result (Staged Rest) := do
  rules.integrity context
  checkSubmittedParams context witnesses
  rules.network context
  checkSubmittedWitnesses crypto context witnesses
  checkConwayRefScripts context
  rules.scripts context
  rules.phase2 context
  let (rest, adjustments) ← rules.effects context
  let utxo ← applyTxWithdrawals .conway context.utxo context.tx.id context.tx.body
    context.slot adjustments.withdrawalTotal adjustments.totalDeposits adjustments.totalRefunds
  rejectIf (context.tx.body.treasuryDonation = some 0) .zeroDonation
  return ⟨utxo, rest⟩

/-- `apply_submitted_tx` on a Conway transaction.  On a state past Byron `prepare` is the adoption
of scheduled genesis delegations, which comes first here too. -/
def applySubmittedTx (crypto : Crypto) (rules : Rules Rest Extra Evaluator) (slot : SlotNo)
    (evaluator : Option Evaluator) (state : LedgerState Rest) (tx : SubmittedTx codec) :
    Result (LedgerState Rest) := do
  let state := rules.prepare .conway slot state
  rejectIf (tx.isValid = false) .submittedTxIsInvalid
  let sizes ← submittedRawSizes state tx
  let staged ← applySubmittedRules crypto rules
    (submittedContext state slot evaluator (tx.decoded sizes)) tx.witnessSet
  return { state with multiEraUtxo := staged.utxo, rest := staged.rest }

end

end Yggdrasil.Ledger
