import Yggdrasil.Ledger.EarlyBlocks
import Yggdrasil.Ledger.ParameterProposals
import Yggdrasil.Ledger.SubmittedTx
import Yggdrasil.Library.StagedCall

/-!
# The calls on a ledger state

`apply_block_validated` and `apply_submitted_tx` (`state.rs`) for every era, as calls that change
the state in place: what a call has done before it fails stays done.  Both adopt scheduled genesis
delegations first, and a block of a later era activates the pending Shelley genesis; then the
checks and the transactions work on copies; the copies are committed; and only then the parameter
updates of the transactions are checked, one after another.

`earlyCall_result` and `scriptCall_result` say that a call that succeeds does what
`applyEarlyBlockValidated` and `applyBlockValidated` do.

The checks that only accept or refuse stay abstract, as do decoders and hashes.
-/

namespace Yggdrasil.Ledger

open Library

/-- The state with the delegates of the genesis keys read anew; the rules read them from here. -/
def BoundaryState.refresh (state : BoundaryState) : BoundaryState :=
  { state with genDelegs := genesisDelegates state.rest.genDelegs }

/-- The checks on a submitted transaction before its certificates; Conway has its own rules. -/
structure SubmissionChecks (More Evaluator : Type) where
  shelley : BoundaryState → SlotNo → EarlyTx ShelleyTxBody More → Result Unit
  allegra : BoundaryState → SlotNo → EarlyTx AllegraTxBody More → Result Unit
  mary : BoundaryState → SlotNo → EarlyTx MaryTxBody More → Result Unit
  /-- Alonzo and Babbage, phase 2 included. -/
  script : TxContext ProtocolParameterUpdate EpochState More Evaluator → Result Unit

/-- What stays abstract.  Votes for parameters and block counts are those of
`ParameterProposals`, whatever `checks` and `early` have in their place. -/
structure LedgerCallEnv (More Evaluator : Type) where
  crypto : Crypto
  codec : SubmissionCodec (TxContents ProtocolParameterUpdate More)
  checks : Checks ProtocolParameterUpdate EpochState More Evaluator
  early : EarlyRules More
  submission : SubmissionChecks More Evaluator
  byronTx : Bytes → Result ByronTx
  /-- The update that a body proposes. -/
  update : More → Option ShelleyUpdate
  /-- The hash of the key that issued a block. -/
  issuerHash : BlockHeader → PoolKeyHash

structure ByronBlock where
  header : BlockHeader
  headerCborSize : Option Nat
  transactions : List Tx
deriving DecidableEq, Repr

/-- What a committed transaction leaves to do. -/
structure Leftover where
  update : Option ShelleyUpdate
  certificates : List Certificate

section

variable {More Evaluator : Type} (env : LedgerCallEnv More Evaluator)

namespace LedgerCallEnv

def earlyLeftover {Body : Type} (tx : EarlyTx Body More) : Leftover :=
  ⟨env.update tx.more, tx.certificates.getD []⟩

def scriptLeftover (tx : FullTx ProtocolParameterUpdate More) : Leftover :=
  ⟨env.update tx.body.extra.more, tx.body.extra.certificates.getD []⟩

/-- The rules of an era without scripts. -/
def eraRules {Utxo Body : Type} (rules : EraRules Utxo Body More) : EraRules Utxo Body More :=
  { rules with
    collectProposals := fun slot state txs =>
      EpochState.withUpdates state slot (txs.filterMap fun tx => env.update tx.more) }

def earlyRules : EarlyRules More where
  shelley := env.eraRules env.early.shelley
  allegra := env.eraRules env.early.allegra
  mary := env.eraRules env.early.mary
  recordProducer block := recordBlockProducer (env.issuerHash block.header) block.header.slotNo

/-- The checks of the eras with scripts. -/
def scriptChecks : Checks ProtocolParameterUpdate EpochState More Evaluator :=
  { env.checks with
    collectProposals := fun _ slot state txs => EpochState.withUpdates state slot
      ((txs.filter (·.txIsValid)).filterMap fun tx => env.update tx.body.extra.more)
    recordProducer := fun block =>
      recordBlockProducer (env.issuerHash block.header) block.header.slotNo }

end LedgerCallEnv

/-! ## After the commit -/

/-- The state with other pending updates and instantaneous rewards. -/
def BoundaryState.withPending (state : BoundaryState) (pending : PendingPparamUpdates)
    (rewards : InstantaneousRewards) : BoundaryState :=
  { state with
    rest := { state.rest with
      other := { state.rest.other with pendingPparamUpdates := pending }
      instantaneousRewards := rewards } }

/-- One round of the loop after the commit: the update, then the instantaneous rewards. -/
def finishTx (slot : SlotNo) (state : BoundaryState) (leftover : Leftover) :
    Result BoundaryState := do
  let pending ← leftover.update.toList.foldlM (collectUpdate slot state)
    state.rest.other.pendingPparamUpdates
  return state.withPending pending
    (accumulateMirFromCerts state.rest.instantaneousRewards leftover.certificates)

/-! ## Blocks -/

/-- The slot grows and the era does not go back. -/
def checkBlockOrder (state : BoundaryState) (slot : SlotNo) (era : Era) : Result Unit := do
  state.tip.slot.forM fun tipSlot => rejectIf (slot ≤ tipSlot) (.slotNotIncreasing tipSlot slot)
  rejectIf (state.tip ≠ .origin ∧ state.currentEra.isEraRegression era) .blockEraRegression

/-- Activation and adoption before a block of a later era than Byron. -/
def enterLedger (slot : SlotNo) (state : BoundaryState) : BoundaryState :=
  prepareBlock slot (translateShelleyUtxo state)

/-- `adopt_scheduled_genesis_delegations`. -/
def adoptScheduledGenesisDelegations (slot : SlotNo) (state : BoundaryState) : BoundaryState :=
  BoundaryState.refresh
    { state with rest := applyScheduledGenesisDelegations slot state.rest }

variable (slot : SlotNo) (state : BoundaryState)

/-- Entering is the adoption of delegations after the activation of the genesis. -/
theorem enterLedger_eq :
    enterLedger slot state = adoptScheduledGenesisDelegations slot
      (activatePendingShelleyGenesis (translateShelleyUtxo state)) := rfl

/-- The parameters before the block come back. -/
def restoreParams (entered stopped : BoundaryState) : BoundaryState :=
  BoundaryState.refresh { stopped with protocolParams := entered.protocolParams }

variable (block : ScriptBlock) (evaluator : Option Evaluator) {Utxo Body : Type}
  (transition : Transition Utxo Body) (rules : EraRules Utxo Body More)

/-- The transactions of a block without scripts, up to the commit. -/
def stageEarlyTransactions (utxo : Utxo) (commit : Utxo → BoundaryState → BoundaryState)
    (state : BoundaryState) (block : EarlyBlock) : Result (BoundaryState × List Leftover) :=
  if block.transactions.isEmpty then .ok (state, [])
  else do
    let decoded ← block.transactions.mapM rules.decode
    let staged ← decoded.zipIdx.foldlM
      (applyEarlyTx transition rules state block.header.slotNo) (utxo, state.rest.toCertState)
    return (commit staged.1 { state with rest := { state.rest with toCertState := staged.2 } },
      decoded.map env.earlyLeftover)

/-- Put a new set in the place of both. -/
def commitShelleyUtxo (utxo : ShelleyUtxo) (state : BoundaryState) : BoundaryState :=
  { state with
    multiEraUtxo := .fromShelleyUtxo utxo
    rest := { state.rest with other := { state.rest.other with shelleyUtxo := utxo } } }

def commitUtxo (utxo : MultiEraUtxo) (state : BoundaryState) : BoundaryState :=
  { state with multiEraUtxo := utxo }

/-- The block functions of Shelley, Allegra and Mary up to the commit. -/
def stageEarlyEraBlock (state : BoundaryState) (block : EarlyBlock) :
    Result (BoundaryState × List Leftover) :=
  match block.era with
  | .shelley => stageEarlyTransactions env ShelleyUtxo.applyTxWithWithdrawals
      env.earlyRules.shelley state.rest.other.shelleyUtxo commitShelleyUtxo state block
  | .allegra => stageEarlyTransactions env applyAllegraTxWithdrawals env.earlyRules.allegra
      state.multiEraUtxo commitUtxo state block
  | .mary => stageEarlyTransactions env applyMaryTxWithdrawals env.earlyRules.mary
      state.multiEraUtxo commitUtxo state block

/-- The producer is counted and the block becomes the tip. -/
def closeBlock (header : BlockHeader) (era : Era) (counted : EpochState)
    (state : BoundaryState) : BoundaryState :=
  BoundaryState.refresh { state with
    rest := { state.rest with other := counted }
    currentEra := era
    tip := .blockPoint header.slotNo header.hash }

/-- `apply_block_validated` on a Shelley, Allegra or Mary block. -/
def earlyCall (block : EarlyBlock) : StagedCall BoundaryState Leftover Failure where
  guard state := checkBlockOrder state block.header.slotNo block.era.era
  enter := enterLedger block.header.slotNo
  stage entered := do
    entered.protocolParams.forM (checkEarlyBlockSizes block)
    stageEarlyEraBlock env (adoptEarlyProtocolVersion block entered) block
  finish := finishTx block.header.slotNo
  undo := restoreParams
  close state := closeBlock block.header block.era.era
    (env.earlyRules.recordProducer block state) state

/-- The block functions of Alonzo, Babbage and Conway up to the commit. -/
def stageScriptEraBlock (evaluator : Option Evaluator) (state : BoundaryState)
    (block : ScriptBlock) : Result (BoundaryState × List Leftover) :=
  if block.transactions.isEmpty then .ok (state, [])
  else do
    let decoded ← block.transactions.mapM (decodeTx env.codec.toCodec block.era)
    validateBlockExUnits env.codec.toCodec state.protocolParams decoded
    if block.era = .conway then
      validateBlockRefScripts state decoded
    let staged ← applyTxs env.crypto env.codec.toCodec (ledgerRules env.scriptChecks) state
      block.era block.header.slotNo evaluator 0 ⟨state.multiEraUtxo, state.rest⟩ decoded
    return ({ state with multiEraUtxo := staged.utxo, rest := staged.rest },
      if block.era = .conway then []
      else (decoded.filter (·.txIsValid)).map env.scriptLeftover)

/-- `apply_block_validated` on an Alonzo, Babbage or Conway block. -/
def scriptCall : StagedCall BoundaryState Leftover Failure where
  guard state := checkBlockOrder state block.header.slotNo block.era.era
  enter := enterLedger block.header.slotNo
  stage entered := do
    entered.protocolParams.forM (checkBlockSizes block)
    stageScriptEraBlock env evaluator (adoptBlockProtocolVersion block entered) block
  finish := finishTx block.header.slotNo
  undo := restoreParams
  close state := closeBlock block.header block.era.era
    (env.scriptChecks.recordProducer block state) state

def checkByronBlockSizes (block : ByronBlock) (params : ProtocolParameters) : Result Unit := do
  let bodySize := (block.transactions.map Tx.serializedSize).sum
  rejectIf (params.maxBlockBodySize.toNat < bodySize)
    (.blockTooLarge bodySize params.maxBlockBodySize.toNat)
  block.headerCborSize.forM fun headerSize =>
    rejectIf (params.maxBlockHeaderSize.toNat < headerSize)
      (.headerTooLarge headerSize params.maxBlockHeaderSize.toNat)

def applyByronBlock (state : BoundaryState) (block : ByronBlock) : Result BoundaryState := do
  let decoded ← block.transactions.mapM fun tx => env.byronTx tx.body
  let utxo ← (block.transactions.zip decoded).foldlM
    (fun utxo tx => applyByronTxWithId utxo tx.1.id tx.2) state.multiEraUtxo
  return commitUtxo utxo state

/-- `apply_block_validated` on a Byron block: the slot need not grow, since an epoch boundary
block shares its slot, and the producer is not counted. -/
def byronCall (block : ByronBlock) : StagedCall BoundaryState Leftover Failure where
  guard state :=
    rejectIf (state.tip ≠ .origin ∧ state.currentEra.isEraRegression .byron) .blockEraRegression
  enter := adoptScheduledGenesisDelegations block.header.slotNo
  stage entered := do
    entered.protocolParams.forM (checkByronBlockSizes block)
    return (← applyByronBlock env entered block, [])
  finish := finishTx block.header.slotNo
  undo := restoreParams
  close state := closeBlock block.header .byron state.rest.other state

/-! ## Submitted transactions -/

inductive SubmittedLedgerTx where
  | shelley (tx : EarlyTx ShelleyTxBody More)
  | allegra (tx : EarlyTx AllegraTxBody More)
  | mary (tx : EarlyTx MaryTxBody More)
  | alonzo (tx : FullTx ProtocolParameterUpdate More)
  | babbage (tx : FullTx ProtocolParameterUpdate More)
  | conway (tx : SubmittedTx env.codec)

/-- The committed state of a submission takes over its instantaneous rewards before the update is
checked. -/
def commitSubmission (leftover : Leftover) (state : BoundaryState) :
    BoundaryState × List Leftover :=
  (state.withPending state.rest.other.pendingPparamUpdates
      (accumulateMirFromCerts state.rest.instantaneousRewards leftover.certificates),
    [⟨leftover.update, []⟩])

/-- The pattern of Shelley, Allegra and Mary. -/
def stageEarlySubmission (check : BoundaryState → SlotNo → EarlyTx Body More → Result Unit)
    (utxo : Utxo) (commit : Utxo → BoundaryState → BoundaryState) (slot : SlotNo)
    (state : BoundaryState) (tx : EarlyTx Body More) : Result (BoundaryState × List Leftover) := do
  let staged ← applyEarlyTx transition
    { rules with check := fun state slot _ tx => check state slot tx } state slot
    (utxo, state.rest.toCertState) (tx, 0)
  return commitSubmission (env.earlyLeftover tx)
    (commit staged.1 { state with rest := { state.rest with toCertState := staged.2 } })

/-- The pattern of Alonzo and Babbage. -/
def stageScriptSubmission (era : ScriptEra) (slot : SlotNo) (evaluator : Option Evaluator)
    (state : BoundaryState) (tx : FullTx ProtocolParameterUpdate More) :
    Result (BoundaryState × List Leftover) := do
  rejectIf (tx.txIsValid = false) .submittedTxIsInvalid
  let context : TxContext ProtocolParameterUpdate EpochState More Evaluator :=
    ⟨state, era, slot, evaluator, 0, state.multiEraUtxo, state.rest, tx⟩
  env.submission.script context
  let (rest, adjustments) ← txEffects env.scriptChecks context
  let utxo ← applyTxWithdrawals era state.multiEraUtxo tx.id tx.body slot
    adjustments.withdrawalTotal adjustments.totalDeposits adjustments.totalRefunds
  return commitSubmission (env.scriptLeftover tx) (commitUtxo utxo { state with rest := rest })

/-- A Conway transaction proposes no update of this kind. -/
def stageConwaySubmission (slot : SlotNo) (evaluator : Option Evaluator)
    (state : BoundaryState) (tx : SubmittedTx env.codec) :
    Result (BoundaryState × List Leftover) := do
  rejectIf (tx.isValid = false) .submittedTxIsInvalid
  let sizes ← submittedRawSizes state tx
  let staged ← applySubmittedRules env.crypto (ledgerRules env.scriptChecks)
    (submittedContext state slot evaluator (tx.decoded sizes)) tx.witnessSet
  return ({ state with multiEraUtxo := staged.utxo, rest := staged.rest }, [])

def stageSubmission (slot : SlotNo) (evaluator : Option Evaluator) (state : BoundaryState) :
    SubmittedLedgerTx env → Result (BoundaryState × List Leftover)
  | .shelley tx => stageEarlySubmission env ShelleyUtxo.applyTxWithWithdrawals
      env.earlyRules.shelley env.submission.shelley state.rest.other.shelleyUtxo
      commitShelleyUtxo slot state tx
  | .allegra tx => stageEarlySubmission env applyAllegraTxWithdrawals env.earlyRules.allegra
      env.submission.allegra state.multiEraUtxo commitUtxo slot state tx
  | .mary tx => stageEarlySubmission env applyMaryTxWithdrawals env.earlyRules.mary
      env.submission.mary state.multiEraUtxo commitUtxo slot state tx
  | .alonzo tx => stageScriptSubmission env .alonzo slot evaluator state tx
  | .babbage tx => stageScriptSubmission env .babbage slot evaluator state tx
  | .conway tx => stageConwaySubmission env slot evaluator state tx

/-- `apply_submitted_tx`: nothing is undone after a failure. -/
def submissionCall (slot : SlotNo) (evaluator : Option Evaluator) (tx : SubmittedLedgerTx env) :
    StagedCall BoundaryState Leftover Failure where
  guard _ := .ok ()
  enter := adoptScheduledGenesisDelegations slot
  stage entered := stageSubmission env slot evaluator entered tx
  finish := finishTx slot
  undo _ stopped := stopped.refresh
  close := BoundaryState.refresh

/-! ## All calls -/

inductive LedgerCall where
  | byronBlock (block : ByronBlock)
  | earlyBlock (block : EarlyBlock)
  | scriptBlock (block : ScriptBlock) (evaluator : Option Evaluator)
  | submission (slot : SlotNo) (evaluator : Option Evaluator) (tx : SubmittedLedgerTx env)

variable {env}

def LedgerCall.parts : LedgerCall env → StagedCall BoundaryState Leftover Failure
  | byronBlock block => byronCall env block
  | earlyBlock block => earlyCall env block
  | scriptBlock block evaluator => scriptCall env block evaluator
  | submission slot evaluator tx => submissionCall env slot evaluator tx

def LedgerCall.run (call : LedgerCall env) (state : BoundaryState) : BoundaryState × Result Unit :=
  call.parts.run state

/-! ## Calls that succeed -/

theorem map_bind_result {α β γ : Type} (first : Result α) (next : α → Result β) (f : β → γ) :
    (first >>= next).map f = first >>= fun value => (next value).map f := by
  cases first <;> rfl

/-- The loop after the commit collects the updates first and the rewards then: no check of an
update reads what the loop has changed so far. -/
theorem foldlM_finishTx (items : List Leftover) :
    items.foldlM (finishTx slot) state =
      ((items.filterMap (·.update)).foldlM (collectUpdate slot state)
        state.rest.other.pendingPparamUpdates).map fun pending =>
          state.withPending pending (items.foldl (fun rewards item =>
            accumulateMirFromCerts rewards item.certificates) state.rest.instantaneousRewards) := by
  induction items generalizing state with
  | nil => rfl
  | cons item rest ih =>
    obtain ⟨update, certificates⟩ := item
    rw [List.foldlM_cons, finishTx]
    cases update with
    | none =>
      simp only [ih]
      rfl
    | some update =>
      simp only [Option.toList_some, List.foldlM_cons, List.filterMap_cons, List.foldl_cons]
      cases collectUpdate slot state state.rest.other.pendingPparamUpdates update with
      | error failure => rfl
      | ok pending =>
        simp only [bind, Except.bind, pure, Except.pure, ih]
        rfl

theorem finishEarlyBlock_eq (slot : SlotNo) (state : BoundaryState) (txs : List (EarlyTx Body More)) :
    finishEarlyBlock (env.eraRules rules) slot state txs =
      (txs.map env.earlyLeftover).foldlM (finishTx slot) state := by
  have hupdates : (txs.map env.earlyLeftover).filterMap (·.update) =
      txs.filterMap fun tx => env.update tx.more := by
    rw [List.filterMap_map]
    rfl
  rw [foldlM_finishTx, List.foldl_map, hupdates]
  change (EpochState.withUpdates state slot (txs.filterMap fun tx => env.update tx.more) >>=
    fun other => _) = _
  rw [EpochState.withUpdates]
  cases (txs.filterMap fun tx => env.update tx.more).foldlM (collectUpdate slot state)
      state.rest.other.pendingPparamUpdates with
  | error failure | ok pending => rfl

theorem applyEarlyTransactions_eq (utxo : Utxo) (commit : Utxo → BoundaryState → BoundaryState)
    (state : BoundaryState) (block : EarlyBlock) :
    applyEarlyTransactions transition (env.eraRules rules) utxo commit state block =
      (do
        let staged ← stageEarlyTransactions env transition (env.eraRules rules) utxo commit state
          block
        staged.2.foldlM (finishTx block.header.slotNo) staged.1) := by
  unfold applyEarlyTransactions stageEarlyTransactions
  by_cases hempty : block.transactions.isEmpty
  · rw [if_pos hempty, if_pos hempty]
    rfl
  · rw [if_neg hempty, if_neg hempty]
    cases block.transactions.mapM (env.eraRules rules).decode with
    | error failure => rfl
    | ok decoded =>
      simp only [bind, Except.bind]
      cases decoded.zipIdx.foldlM (applyEarlyTx transition (env.eraRules rules) state
          block.header.slotNo) (utxo, state.rest.toCertState) with
      | error failure => rfl
      | ok staged => exact finishEarlyBlock_eq rules _ _ _

theorem applyEarlyEraBlock_eq (block : EarlyBlock) :
    applyEarlyEraBlock env.earlyRules state block =
      (do
        let staged ← stageEarlyEraBlock env state block
        staged.2.foldlM (finishTx block.header.slotNo) staged.1) := by
  unfold applyEarlyEraBlock stageEarlyEraBlock
  cases block.era with
  | shelley => exact applyEarlyTransactions_eq _ env.early.shelley _ commitShelleyUtxo state block
  | allegra => exact applyEarlyTransactions_eq _ env.early.allegra _ commitUtxo state block
  | mary => exact applyEarlyTransactions_eq _ env.early.mary _ commitUtxo state block

/-- A call with a block without scripts that succeeds does what the block does. -/
theorem earlyCall_result (block : EarlyBlock) :
    (earlyCall env block).result state =
      (applyEarlyBlockValidated env.earlyRules state block).map BoundaryState.refresh := by
  unfold StagedCall.result applyEarlyBlockValidated earlyCall checkBlockOrder enterLedger
  simp only [bind_assoc, applyEarlyEraBlock_eq, map_bind_result]
  rfl

variable (env) in
/-- What an era function with scripts does after its transactions; Conway has no such updates. -/
theorem finishBlock_eq (era : ScriptEra) (slot : SlotNo) (state : BoundaryState)
    (txs : List (FullTx ProtocolParameterUpdate More)) :
    (finishBlock env.scriptChecks era slot state txs).map (fun rest => { state with rest := rest }) =
      (if era = .conway then [] else (txs.filter (·.txIsValid)).map env.scriptLeftover).foldlM
        (finishTx slot) state := by
  have hupdates : ((txs.filter (·.txIsValid)).map env.scriptLeftover).filterMap (·.update) =
      (txs.filter (·.txIsValid)).filterMap fun tx => env.update tx.body.extra.more := by
    rw [List.filterMap_map]
    rfl
  cases era with
  | conway => rfl
  | alonzo | babbage =>
    rw [if_neg (by decide), foldlM_finishTx, List.foldl_map, hupdates]
    change Except.map _ (EpochState.withUpdates state slot ((txs.filter (·.txIsValid)).filterMap
      fun tx => env.update tx.body.extra.more) >>= fun other => _) = _
    rw [EpochState.withUpdates]
    cases ((txs.filter (·.txIsValid)).filterMap fun tx => env.update tx.body.extra.more).foldlM
        (collectUpdate slot state) state.rest.other.pendingPparamUpdates with
    | error failure | ok pending => rfl

theorem applyEraBlock_eq :
    applyEraBlock env.crypto env.codec.toCodec (ledgerRules env.scriptChecks) state block
        evaluator =
      (do
        let staged ← stageScriptEraBlock env evaluator state block
        staged.2.foldlM (finishTx block.header.slotNo) staged.1) := by
  unfold applyEraBlock stageScriptEraBlock
  by_cases hempty : block.transactions.isEmpty
  · rw [if_pos hempty, if_pos hempty]
    rfl
  · rw [if_neg hempty, if_neg hempty, bind_assoc]
    refine congrArg _ (funext fun decoded => ?_)
    rw [bind_assoc]
    refine congrArg _ (funext fun _ => ?_)
    by_cases hconway : block.era = .conway
    · simp only [hconway, if_true, bind_assoc]
      rfl
    · simp only [hconway, if_false, bind_assoc, pure_bind]
      refine congrArg _ (funext fun staged => ?_)
      have hfinish := finishBlock_eq env block.era block.header.slotNo
        { state with multiEraUtxo := staged.utxo, rest := staged.rest } decoded
      rw [if_neg hconway] at hfinish
      rw [← hfinish]
      change (finishBlock env.scriptChecks _ _ _ _ >>= _) = _
      cases finishBlock env.scriptChecks block.era block.header.slotNo
        { state with multiEraUtxo := staged.utxo, rest := staged.rest } decoded <;> rfl

/-- A call with a block with scripts that succeeds does what the block does. -/
theorem scriptCall_result :
    (scriptCall env block evaluator).result state =
      (applyBlockValidated env.crypto env.codec.toCodec (ledgerRules env.scriptChecks)
        (translateShelleyUtxo state) block evaluator).map BoundaryState.refresh := by
  unfold StagedCall.result applyBlockValidated scriptCall checkBlockOrder enterLedger enterBlock
  simp only [bind_assoc, applyEraBlock_eq, map_bind_result]
  have htip : (translateShelleyUtxo state).tip = state.tip := by
    unfold translateShelleyUtxo
    split <;> rfl
  have hera : (translateShelleyUtxo state).currentEra = state.currentEra := by
    unfold translateShelleyUtxo
    split <;> rfl
  rw [htip, hera]
  rfl

/-- After Byron a submission of a Conway transaction that succeeds does what the rules of Conway
say. -/
theorem conwaySubmission_result (slot : SlotNo) (evaluator : Option Evaluator)
    (state : BoundaryState) (hera : state.currentEra ≠ .byron) (tx : SubmittedTx env.codec) :
    (submissionCall env slot evaluator (.conway tx)).result state =
      (applySubmittedTx env.crypto (ledgerRules env.scriptChecks) slot evaluator state tx).map
        BoundaryState.refresh := by
  have hprepare : prepareBlock slot state = adoptScheduledGenesisDelegations slot state := by
    unfold prepareBlock activatePendingShelleyGenesis
    rw [if_neg hera]
    rfl
  have hrules : (ledgerRules env.scriptChecks).prepare .conway slot state =
      adoptScheduledGenesisDelegations slot state := hprepare
  unfold StagedCall.result applySubmittedTx submissionCall stageSubmission stageConwaySubmission
  simp only [hrules, bind_assoc, map_bind_result]
  rfl

end

/-- An environment in which no abstract check refuses anything and only Shelley bodies decode; the
body of a transaction proposes the update it carries. -/
def LedgerCallEnv.permissive
    (shelleyTx : Tx → Result (EarlyTx ShelleyTxBody (Option ShelleyUpdate))) :
    LedgerCallEnv (Option ShelleyUpdate) Unit where
  crypto := ⟨fun _ => 0, fun _ => 0, fun _ _ _ => true⟩
  codec :=
    { body := fun _ _ => reject .noInputs
      outputRawSizes := fun _ => reject .noInputs
      witnessSet := fun _ => reject .noInputs
      txId := fun _ => 0
      reencodeWitnesses := id }
  checks :=
    { integrity := fun _ => .ok ()
      network := fun _ => .ok ()
      scripts := fun _ => .ok ()
      phase2 := fun _ => .ok ()
      voters := fun _ _ _ => .ok ()
      proposal := fun _ _ _ _ _ => .ok ()
      votes := fun _ _ _ => .ok ()
      collectProposals := fun _ _ state _ => .ok state.rest.other
      recordProducer := fun _ state => state.rest.other }
  early :=
    { shelley := ⟨shelleyTx, fun _ _ _ _ => .ok (), fun _ state _ => .ok state.rest.other⟩
      allegra := ⟨fun _ => reject .noInputs, fun _ _ _ _ => .ok (),
        fun _ state _ => .ok state.rest.other⟩
      mary := ⟨fun _ => reject .noInputs, fun _ _ _ _ => .ok (),
        fun _ state _ => .ok state.rest.other⟩
      recordProducer := fun _ state => state.rest.other }
  submission := ⟨fun _ _ _ => .ok (), fun _ _ _ => .ok (), fun _ _ _ => .ok (), fun _ => .ok ()⟩
  byronTx _ := reject .noInputs
  update := id
  issuerHash _ := 0

end Yggdrasil.Ledger
