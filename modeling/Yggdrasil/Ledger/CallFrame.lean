import Yggdrasil.Ledger.LedgerCalls

/-!
# What the transactions of a call leave alone

Entering the ledger and applying transactions change the registries, the outputs and the pots.
The epoch, the configuration and what only an epoch boundary reads stay as they are
(`untouched_enterLedger`, `staged_parts`); parameter updates are recorded after the commit
(`LedgerCall.result_eq_ok`).
-/

namespace Yggdrasil.Ledger

/-- What slots and epochs are reckoned by. -/
structure EpochClock where
  currentEpoch : EpochNo
  slotsPerEpoch : UInt64
  stabilityWindow : Option UInt64
  byronShelleyTransition : Option (UInt64 × UInt64)
deriving DecidableEq

def epochClock (rest : BoundaryRest) : EpochClock where
  currentEpoch := rest.currentEpoch
  slotsPerEpoch := rest.slotsPerEpoch
  stabilityWindow := rest.stabilityWindow
  byronShelleyTransition := rest.byronShelleyTransition

/-- What transactions leave alone. -/
structure Untouched where
  clock : EpochClock
  /-- The Shelley outputs apart. -/
  other : EpochState

def untouched (rest : BoundaryRest) : Untouched where
  clock := epochClock rest
  other := { rest.other with shelleyUtxo := ∅ }

/-- What transactions leave alone, with the genesis funds that wait. -/
def txFrame (rest : BoundaryRest) : Untouched × Option (List (ShelleyTxIn × Bytes × UInt64)) :=
  (untouched rest, rest.pendingShelleyGenesisUtxo)

theorem epochClock_of_untouched {rest other : BoundaryRest}
    (hsame : untouched rest = untouched other) : epochClock rest = epochClock other :=
  congrArg Untouched.clock hsame

theorem pendingPparamUpdates_of_untouched {rest other : BoundaryRest}
    (hsame : untouched rest = untouched other) :
    rest.other.pendingPparamUpdates = other.other.pendingPparamUpdates :=
  congrArg (fun frame => frame.other.pendingPparamUpdates) hsame

section

variable {More Evaluator : Type} {env : LedgerCallEnv More Evaluator}

theorem untouched_enterLedger (slot : SlotNo) (state : BoundaryState) :
    untouched (enterLedger slot state).rest = untouched state.rest := by
  unfold enterLedger prepareBlock activatePendingShelleyGenesis translateShelleyUtxo
  by_cases hera : state.currentEra = .byron
  · simp only [if_pos hera]
    rfl
  · simp only [if_neg hera]
    rfl

namespace LedgerCall

def slot : LedgerCall env → SlotNo
  | byronBlock block => block.header.slotNo
  | earlyBlock block => block.header.slotNo
  | scriptBlock block _ => block.header.slotNo
  | submission slot _ _ => slot

end LedgerCall

/-- The updates in the transactions of a block without scripts. -/
def earlyUpdates {Body : Type} (decode : Tx → Result (EarlyTx Body More))
    (update : More → Option ShelleyUpdate) (txs : List Tx) : List ShelleyUpdate :=
  match txs.mapM decode with
  | .ok decoded => decoded.filterMap fun tx => update tx.more
  | .error _ => []

variable (env) in
/-- The updates in the transactions of a block with scripts.  Failed scripts and Conway propose
none. -/
def scriptUpdates (block : ScriptBlock) : List ShelleyUpdate :=
  if block.era = .conway then []
  else
    match block.transactions.mapM (decodeTx env.codec.toCodec block.era) with
    | .ok decoded =>
      (decoded.filter (·.txIsValid)).filterMap fun tx => env.update tx.body.extra.more
    | .error _ => []

namespace LedgerCall

/-- The updates that a call proposes, in the order of its transactions. -/
def updates : LedgerCall env → List ShelleyUpdate
  | byronBlock _ => []
  | earlyBlock block =>
    match block.era with
    | .shelley => earlyUpdates env.early.shelley.decode env.update block.transactions
    | .allegra => earlyUpdates env.early.allegra.decode env.update block.transactions
    | .mary => earlyUpdates env.early.mary.decode env.update block.transactions
  | scriptBlock block _ => scriptUpdates env block
  | submission _ _ (.shelley tx) => (env.update tx.more).toList
  | submission _ _ (.allegra tx) => (env.update tx.more).toList
  | submission _ _ (.mary tx) => (env.update tx.more).toList
  | submission _ _ (.alonzo tx) => (env.update tx.body.extra.more).toList
  | submission _ _ (.babbage tx) => (env.update tx.body.extra.more).toList
  | submission _ _ (.conway _) => []

end LedgerCall

/-- What transactions leave alone is as it was, and their updates are left to do. -/
def StagedUpdates (updates : List ShelleyUpdate) (state : BoundaryState)
    (staged : BoundaryState × List Leftover) : Prop :=
  txFrame staged.1.rest = txFrame state.rest ∧ staged.2.filterMap (·.update) = updates

section

variable {codec : Codec (TxContents ProtocolParameterUpdate More)} {slot : SlotNo}
  {evaluator : Option Evaluator}
  {context : TxContext ProtocolParameterUpdate EpochState More Evaluator}
  {checks : Checks ProtocolParameterUpdate EpochState More Evaluator}
  {state : BoundaryState} {result : BoundaryState × List Leftover}

theorem staged_early {Utxo Body : Type} {transition : Transition Utxo Body}
    {rules : EraRules Utxo Body More} {utxo : Utxo} {commit : Utxo → BoundaryState → BoundaryState}
    (hcommit : ∀ utxo state, txFrame (commit utxo state).rest = txFrame state.rest)
    {block : EarlyBlock}
    (hstage : stageEarlyTransactions env transition rules utxo commit state block = .ok result) :
    StagedUpdates (earlyUpdates rules.decode env.update block.transactions) state result := by
  unfold stageEarlyTransactions at hstage
  unfold earlyUpdates
  split at hstage
  · next hempty =>
      cases hstage
      rw [List.isEmpty_iff.mp hempty]
      exact ⟨rfl, rfl⟩
  · simp only [bind_eq_ok] at hstage
    obtain ⟨decoded, hdecode, staged, -, hreturn⟩ := hstage
    cases hreturn
    rw [hdecode]
    exact ⟨hcommit _ _, List.filterMap_map⟩

theorem txFrame_beforeCertificates {governed : BoundaryRest}
    (hrun : beforeCertificates checks context = .ok governed) :
    txFrame governed = txFrame context.rest := by
  obtain ⟨dreps, dormant, actions, rfl⟩ := beforeCertificates_frame hrun
  rfl

theorem txFrame_txEffects {rest : BoundaryRest} {adjustments : Adjustments}
    (hrun : txEffects checks context = .ok (rest, adjustments)) :
    txFrame rest = txFrame context.rest := by
  obtain ⟨governed, hbefore, hrest⟩ := bind_eq_ok.mp hrun
  obtain ⟨⟨certified, certAdjustments⟩, -, hreturn⟩ := bind_eq_ok.mp hrest
  have hgoverned := txFrame_beforeCertificates hbefore
  refine Eq.trans ?_ hgoverned
  by_cases hconway : context.era = .conway
  · simp only [hconway, if_true] at hreturn
    cases hreturn
    rfl
  · simp only [hconway, if_false] at hreturn
    cases hreturn
    rfl

theorem txFrame_applyTx {crypto : Crypto} {staged : Staged BoundaryRest}
    (hrun : applyTx crypto codec (ledgerRules checks) context = .ok staged) :
    txFrame staged.rest = txFrame context.rest := by
  obtain ⟨_, _, heffects, _⟩ | ⟨_, rfl⟩ := applyTx_cases hrun
  · exact txFrame_txEffects heffects
  · rfl

theorem txFrame_applyTxs {crypto : Crypto} {era : ScriptEra} {index : Nat}
    {staged final : Staged BoundaryRest} {txs : List (FullTx ProtocolParameterUpdate More)}
    (hrun : applyTxs crypto codec (ledgerRules checks) state era slot evaluator index staged txs =
      .ok final) : txFrame final.rest = txFrame staged.rest := by
  induction txs generalizing index staged with
  | nil =>
    cases hrun
    rfl
  | cons tx later ih =>
    obtain ⟨next, hnext, hlater⟩ := bind_eq_ok.mp hrun
    exact (ih hlater).trans (txFrame_applyTx hnext)

theorem staged_script {block : ScriptBlock}
    (hstage : stageScriptEraBlock env evaluator state block = .ok result) :
    StagedUpdates (scriptUpdates env block) state result := by
  unfold stageScriptEraBlock at hstage
  unfold scriptUpdates
  split at hstage
  · next hempty =>
      cases hstage
      rw [List.isEmpty_iff.mp hempty]
      split <;> exact ⟨rfl, rfl⟩
  · obtain ⟨decoded, hdecode, hstage⟩ := bind_eq_ok.mp hstage
    obtain ⟨_, -, hstage⟩ := bind_eq_ok.mp hstage
    rw [hdecode]
    by_cases hconway : block.era = .conway
    · simp only [hconway, if_true, bind_eq_ok] at hstage ⊢
      obtain ⟨_, -, staged, hall, hreturn⟩ := hstage
      cases hreturn
      exact ⟨txFrame_applyTxs hall, rfl⟩
    · simp only [hconway, if_false, bind_eq_ok] at hstage ⊢
      obtain ⟨staged, hall, hreturn⟩ := hstage
      cases hreturn
      exact ⟨txFrame_applyTxs hall, List.filterMap_map⟩

theorem staged_commitSubmission {leftover : Leftover} {committed : BoundaryState}
    (hsame : txFrame committed.rest = txFrame state.rest) :
    StagedUpdates leftover.update.toList state (commitSubmission leftover committed) := by
  refine ⟨hsame, ?_⟩
  show List.filterMap (·.update) [Leftover.mk leftover.update []] = _
  cases leftover.update <;> rfl

theorem staged_earlySubmission {Utxo Body : Type} {transition : Transition Utxo Body}
    {rules : EraRules Utxo Body More}
    {check : BoundaryState → SlotNo → EarlyTx Body More → Result Unit} {utxo : Utxo}
    {commit : Utxo → BoundaryState → BoundaryState}
    (hcommit : ∀ utxo state, txFrame (commit utxo state).rest = txFrame state.rest)
    {tx : EarlyTx Body More}
    (hstage : stageEarlySubmission env transition rules check utxo commit slot state tx =
      .ok result) : StagedUpdates (env.update tx.more).toList state result := by
  obtain ⟨staged, -, hreturn⟩ := bind_eq_ok.mp hstage
  cases hreturn
  exact staged_commitSubmission (hcommit _ _)

theorem staged_scriptSubmission {era : ScriptEra} {tx : FullTx ProtocolParameterUpdate More}
    (hstage : stageScriptSubmission env era slot evaluator state tx = .ok result) :
    StagedUpdates (env.update tx.body.extra.more).toList state result := by
  unfold stageScriptSubmission at hstage
  simp only [bind_eq_ok] at hstage
  obtain ⟨_, -, _, -, ⟨rest, adjustments⟩, heffects, utxo, -, hreturn⟩ := hstage
  cases hreturn
  exact staged_commitSubmission (txFrame_txEffects heffects)

theorem staged_conwaySubmission {tx : SubmittedTx env.codec}
    (hstage : stageConwaySubmission env slot evaluator state tx = .ok result) :
    StagedUpdates [] state result := by
  unfold stageConwaySubmission applySubmittedRules at hstage
  simp only [bind_eq_ok] at hstage
  obtain ⟨_, -, sizes, -, staged, ⟨_, -, _, -, _, -, _, -, _, -, _, -, _, -, ⟨rest, adjustments⟩,
    heffects, utxo, -, _, -, hnext⟩, hreturn⟩ := hstage
  cases hreturn
  cases hnext
  exact ⟨txFrame_txEffects heffects, rfl⟩

theorem rest_adoptBlockProtocolVersion (block : ScriptBlock) (state : BoundaryState) :
    (adoptBlockProtocolVersion block state).rest = state.rest := by
  obtain hsame | ⟨_, _, -, -, hraised⟩ := adoptBlockProtocolVersion_cases block state
  · rw [hsame]
  · rw [hraised]

variable (call : LedgerCall env)

theorem staged_parts {entered : BoundaryState} (hstage : call.parts.stage entered = .ok result) :
    StagedUpdates call.updates entered result := by
  cases call with
  | byronBlock block =>
    obtain ⟨_, -, hstage⟩ := bind_eq_ok.mp hstage
    obtain ⟨applied, happly, hreturn⟩ := bind_eq_ok.mp hstage
    obtain ⟨_, -, happly⟩ := bind_eq_ok.mp happly
    obtain ⟨_, -, happlied⟩ := bind_eq_ok.mp happly
    cases hreturn
    cases happlied
    exact ⟨rfl, rfl⟩
  | earlyBlock block =>
    obtain ⟨_, -, hstage⟩ := bind_eq_ok.mp hstage
    unfold StagedUpdates
    rw [← rest_adoptEarlyProtocolVersion block entered]
    unfold stageEarlyEraBlock at hstage
    unfold LedgerCall.updates
    cases hera : block.era
    all_goals
      simp only [hera] at hstage ⊢
      exact (staged_early (by intros; rfl) hstage :)
  | scriptBlock block evaluator =>
    obtain ⟨_, -, hstage⟩ := bind_eq_ok.mp hstage
    unfold StagedUpdates
    rw [← rest_adoptBlockProtocolVersion block entered]
    exact staged_script hstage
  | submission slot evaluator tx =>
    cases tx with
    | shelley tx | allegra tx | mary tx =>
      exact (staged_earlySubmission (by intros; rfl) hstage :)
    | alonzo tx | babbage tx => exact staged_scriptSubmission hstage
    | conway tx => exact staged_conwaySubmission hstage

theorem untouched_enter (state : BoundaryState) :
    untouched (call.parts.enter state).rest = untouched state.rest := by
  cases call with
  | byronBlock block | submission slot evaluator tx => rfl
  | earlyBlock block | scriptBlock block evaluator => exact untouched_enterLedger _ _

end

/-! ## Recorded updates -/

/-- Updates are accepted one by one, against the same state. -/
theorem foldlM_collectUpdate {slot : SlotNo} {state : BoundaryState}
    {updates : List ShelleyUpdate} {pending collected : PendingPparamUpdates} :
    updates.foldlM (collectUpdate slot state) pending = .ok collected ↔
      (∀ update ∈ updates,
        validatePpupProposal state (ppupSlotContext state.rest slot) update = .ok ()) ∧
      collected = updates.foldl (fun pending update => collectPparamProposals update pending)
        pending := by
  induction updates generalizing pending with
  | nil => simp [pure, Except.pure, eq_comm]
  | cons update later ih =>
    simp only [List.foldlM_cons, collectUpdate, bind_assoc, pure_bind, bind_eq_ok, ih,
      List.forall_mem_cons, List.foldl_cons]
    constructor
    · rintro ⟨⟨⟩, hvalid, hlater⟩
      exact ⟨⟨hvalid, hlater.1⟩, hlater.2⟩
    · rintro ⟨⟨hvalid, hlater⟩, hcollected⟩
      exact ⟨(), hvalid, hlater, hcollected⟩

theorem recordBlockProducer_pending (pool : PoolKeyHash) (slot : SlotNo) (state : BoundaryState) :
    (recordBlockProducer pool slot state).pendingPparamUpdates =
      state.rest.other.pendingPparamUpdates := by
  unfold recordBlockProducer
  split <;> rfl

variable (call : LedgerCall env)

theorem close_frame (done : BoundaryState) :
    epochClock (call.parts.close done).rest = epochClock done.rest ∧
      (call.parts.close done).rest.other.pendingPparamUpdates =
        done.rest.other.pendingPparamUpdates := by
  cases call with
  | byronBlock block | submission slot evaluator tx => exact ⟨rfl, rfl⟩
  | earlyBlock block | scriptBlock block evaluator => exact ⟨rfl, recordBlockProducer_pending _ _ _⟩

theorem ppupSlotContext_congr {rest other : BoundaryRest} (hclock : epochClock rest = epochClock other)
    (slot : SlotNo) : ppupSlotContext rest slot = ppupSlotContext other slot := by
  obtain ⟨hepoch, hslots, hwindow, htransition⟩ := (EpochClock.mk.injEq ..).mp hclock
  unfold ppupSlotContext epochFirstSlot
  rw [hepoch, hslots, hwindow, htransition]

/-- **What an accepted call does to the votes.**  The clock stands, the updates of the call are
recorded, and each of them names the epoch that its slot asks for. -/
theorem LedgerCall.result_eq_ok {state next : BoundaryState}
    (hresult : call.parts.result state = .ok next) :
    epochClock next.rest = epochClock state.rest ∧
      next.rest.other.pendingPparamUpdates =
        call.updates.foldl (fun pending update => collectPparamProposals update pending)
          state.rest.other.pendingPparamUpdates ∧
      ∀ update ∈ call.updates, checkTargetEpoch state.rest.currentEpoch update.epoch
        (ppupSlotContext state.rest call.slot) = .ok () := by
  obtain ⟨⟨⟩, -, hresult⟩ := bind_eq_ok.mp hresult
  obtain ⟨⟨committed, items⟩, hstage, hresult⟩ := bind_eq_ok.mp hresult
  obtain ⟨done, hloop, hclose⟩ := bind_eq_ok.mp hresult
  cases hclose
  obtain ⟨hsame, hupdates⟩ := staged_parts call hstage
  have hcommitted := (congrArg Prod.fst hsame).trans (untouched_enter call state)
  have hclock := epochClock_of_untouched hcommitted
  have hfinish : call.parts.finish = finishTx call.slot := by cases call <;> rfl
  rw [hfinish, foldlM_finishTx, hupdates] at hloop
  obtain ⟨pending, hcollect, hdone⟩ := map_eq_ok.mp hloop
  obtain ⟨hvalid, hpending⟩ := foldlM_collectUpdate.mp hcollect
  obtain ⟨hcloseClock, hclosePending⟩ := close_frame call done
  have hepoch : committed.rest.currentEpoch = state.rest.currentEpoch :=
    congrArg EpochClock.currentEpoch hclock
  refine ⟨hcloseClock.trans ?_, hclosePending.trans ?_, ?_⟩
  · rw [← hdone]
    exact hclock
  · rw [← hdone, ← pendingPparamUpdates_of_untouched hcommitted]
    exact hpending
  · intro update hmem
    have haccepted := hvalid update hmem
    obtain ⟨⟨⟩, -, haccepted⟩ := bind_eq_ok.mp haccepted
    obtain ⟨⟨⟩, htarget, -⟩ := bind_eq_ok.mp haccepted
    rw [hepoch, ppupSlotContext_congr hclock] at htarget
    exact htarget

end

end Yggdrasil.Ledger
