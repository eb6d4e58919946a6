import Yggdrasil.Ledger.Checkpoint
import Yggdrasil.Node.Sync.RejectedBlocks

/-!
# Rollback against replay on the ledger side

`update_ledger_checkpoint_after_progress` for a tracking with stake snapshots and an epoch
schedule: `advance_ledger_with_epoch_boundary`, `replay_storage_block_with_epoch_boundary` and
`recover_ledger_state_chaindb_with_epoch_boundary` of `crates/node/sync/src/lib.rs`, as an instance
of `SyncLedger`.  Every block is preceded by the epoch boundary it crosses and followed by the
accumulation of its fees.

A rollback restarts the ledger from a checkpoint of the chain, or from the base state, but the
stake snapshots from where they are.  The outcome is still the fold over the chain that ends at the
rollback point if no block after the checkpoint has paid a fee or opened an epoch
(`rollback_replays_of_quiet`).

The events of a boundary and the mirror of the pool block counts are left out.
-/

namespace Yggdrasil.Node.Sync

open Ledger Storage
open Library

/-- The ledger functions that sync calls, for one epoch schedule and one nonce context. -/
structure BoundaryLedger (Ledger Cursor Body Data : Type) where
  tip : Ledger → Point
  /-- `apply_block_validated`; an error can leave a changed state. -/
  applyBlockValidated : Ledger → Block Body → Except String Unit × Ledger
  /-- `apply_epoch_boundary` with the performance that the ledger derives itself. -/
  applyEpochBoundary : EpochNo → Ledger → StakeSnapshots →
    Except String Unit × Ledger × StakeSnapshots
  /-- `total_transaction_fees_with_utxo` on the state before the block. -/
  totalTransactionFees : Ledger → Block Body → UInt64
  /-- The stored block has its raw bytes. -/
  hasRawCbor : Block Body → Bool
  slotToEpoch : SlotNo → EpochNo
  /-- The nonce state a batch starts with. -/
  nonceState : Cursor
  tickNonce : Cursor → Block Body → Cursor
  /-- The leader check, with the ticked nonce; it passes where there is no nonce context. -/
  leaderCheck : Cursor → Ledger → StakeSnapshots → Block Body → Except String Unit
  encode : Ledger → Data
  decode : Data → Option Ledger
  rehydrate : (restored base : Ledger) → Ledger
  missingCostModels : (restored base : Ledger) → Bool
  truncateChainDep : Point → Except String Unit
  restoreChainDep : ChainDb Body Data → Point → Except String Unit
  chainEntry : Block Body → Consensus.ChainEntry
  /-- An applied block is the tip. -/
  tip_applyBlockValidated : ∀ state block next,
    applyBlockValidated state block = (.ok (), next) → tip next = block.point

/-- What is tracked: the ledger state with the stake snapshots, and the nonce cursor of a batch. -/
structure Tracked (Ledger Cursor : Type) where
  core : Ledger × StakeSnapshots
  cursor : Cursor

namespace BoundaryLedger

variable {Ledger Cursor Body Data : Type} (ledger : BoundaryLedger Ledger Cursor Body Data)

/-! ## One block -/

/-- The origin counts as epoch zero. -/
def isNewEpoch (previous : Option SlotNo) (slot : SlotNo) : Bool :=
  previous.elim 0 ledger.slotToEpoch ≠ ledger.slotToEpoch slot

/-- The epoch boundary, if the block is the first of an epoch. -/
def crossEpoch (core : Ledger × StakeSnapshots) (slot : SlotNo) :
    Except String Unit × Ledger × StakeSnapshots :=
  if ledger.isNewEpoch (ledger.tip core.1).slot slot then
    ledger.applyEpochBoundary (ledger.slotToEpoch slot) core.1 core.2
  else (.ok (), core)

/-- Apply a block and then accumulate its fees. -/
def applyWithFees (fees : UInt64) (core : Ledger × StakeSnapshots) (block : Block Body) :
    Except String Unit × Ledger × StakeSnapshots :=
  match ledger.applyBlockValidated core.1 block with
  | (.ok (), next) =>
    (.ok (), next, if fees > 0 then core.2.accumulateFees fees else core.2)
  | (.error reason, next) => (.error reason, next, core.2)

/-- The loop body of `advance_ledger_with_epoch_boundary`. -/
def advanceBlock (leader : Ledger × StakeSnapshots → Except String Unit)
    (core : Ledger × StakeSnapshots) (block : Block Body) :
    Except String Unit × Ledger × StakeSnapshots :=
  match ledger.crossEpoch core block.header.slotNo with
  | (.error reason, entered) => (.error reason, entered)
  | (.ok (), entered) =>
    match leader entered with
    | .error reason => (.error reason, entered)
    -- the fees are computed before the block changes the outputs they resolve against
    | .ok () => ledger.applyWithFees (ledger.totalTransactionFees entered.1 block) entered block

/-- `replay_storage_block_with_epoch_boundary`: without raw bytes no fees are accumulated. -/
def replayStorageBlock (core : Ledger × StakeSnapshots) (block : Block Body) :
    Except String Unit × Ledger × StakeSnapshots :=
  if ledger.hasRawCbor block then ledger.advanceBlock (fun _ => .ok ()) core block
  else
    match ledger.crossEpoch core block.header.slotNo with
    | (.error reason, entered) => (.error reason, entered)
    | (.ok (), entered) => ledger.applyWithFees 0 entered block

/-- The result where only success counts. -/
def outcome {α : Type} : Except String Unit × α → Except String α
  | (.ok (), value) => .ok value
  | (.error reason, _) => .error reason

/-- The fold of `advance_ledger_with_epoch_boundary` over a chain. -/
def foldChain (start : Ledger × StakeSnapshots) (blocks : List (Block Body)) :
    Except String (Ledger × StakeSnapshots) :=
  blocks.foldlM (fun core block => outcome (ledger.advanceBlock (fun _ => .ok ()) core block)) start

/-- The fold of a replay over stored blocks. -/
def replayAll (start : Ledger × StakeSnapshots) (blocks : List (Block Body)) :
    Except String (Ledger × StakeSnapshots) :=
  blocks.foldlM (fun core block => outcome (ledger.replayStorageBlock core block)) start

/-! ## The instance -/

/-- The boundary-aware ledger as sync drives it.  Only the ledger state is written to a checkpoint
and read back, and only it is reset; the snapshots stay. -/
def sync : SyncLedger (Tracked Ledger Cursor) Body Data where
  applyBlock state block :=
    (outcome (ledger.replayStorageBlock state.core block)).map fun core => { state with core }
  tip state := ledger.tip state.core.1
  encode state := ledger.encode state.core.1
  decode data := (ledger.decode data).map fun state => ⟨(state, .new), ledger.nonceState⟩
  rehydrate restored base :=
    { restored with core := (ledger.rehydrate restored.core.1 base.core.1, restored.core.2) }
  beginBatch state := { state with cursor := ledger.nonceState }
  advance state block :=
    let ticked := ledger.tickNonce state.cursor block
    match ledger.advanceBlock (fun core => ledger.leaderCheck ticked core.1 core.2 block)
        state.core block with
    | (.ok (), core) => (.ok (), ⟨core, ticked⟩)
    | (.error reason, core) => (.error reason, { state with core })
  usable restored base := !ledger.missingCostModels restored.core.1 base.core.1
  resetToBase tracked base := { tracked with core := (base.core.1, tracked.core.2) }
  beginReplay tracked restored := { tracked with core := (restored.core.1, tracked.core.2) }
  afterRecovery := id
  truncateChainDep := ledger.truncateChainDep
  restoreChainDep := ledger.restoreChainDep
  chainEntry := ledger.chainEntry

/-! ## What a successful rollback leaves -/

theorem persistAfterProgress_ledgerState {State : Type} (sync : SyncLedger State Body Data)
    (policy : LedgerCheckpointPolicy) (db : ChainDb Body Data)
    (tracking : LedgerCheckpointTracking State) (rolledBack : Bool) :
    (persistAfterProgress sync policy db tracking rolledBack).2.ledgerState =
      tracking.ledgerState := by
  unfold persistAfterProgress
  dsimp only
  split
  · rfl
  · split <;> rfl

variable {db : ChainDb Body Data} {forward : Option (List (Block Body))}
  {progress : MultiEraSyncProgress Body}

/-- A call that succeeds keeps the state that the ledger was moved to. -/
theorem moveLedger_of_update_ok {State : Type} {sync : SyncLedger State Body Data}
    {policy : LedgerCheckpointPolicy} {db db' : ChainDb Body Data}
    {tracking tracking' : LedgerCheckpointTracking State}
    (hok : updateLedgerCheckpointAfterProgress sync policy db tracking progress =
      (.ok (), db', tracking')) :
    moveLedger sync (truncateForRollback db progress) tracking progress =
      (.ok (), tracking'.ledgerState) := by
  unfold updateLedgerCheckpointAfterProgress at hok
  dsimp only at hok
  rcases hmove : moveLedger sync (truncateForRollback db progress) tracking progress with
    ⟨outcome, state⟩
  rw [hmove] at hok
  cases outcome with
  | error reason => cases hok
  | ok done =>
    have hkeep := persistAfterProgress_ledgerState sync policy
      (truncateForRollback db progress) { tracking with ledgerState := state }
      (decide (progress.rollbackCount ≠ 0))
    have htracking := congrArg (fun result => result.2.2.ledgerState) hok
    exact congrArg (Prod.mk _) (hkeep.symm.trans htracking)

variable {ledger}

theorem tip_applyWithFees {fees : UInt64} {core next : Ledger × StakeSnapshots}
    {block : Block Body} (happly : ledger.applyWithFees fees core block = (.ok (), next)) :
    ledger.tip next.1 = block.point := by
  unfold applyWithFees at happly
  split at happly
  · rename_i applied hblock
    cases happly
    exact ledger.tip_applyBlockValidated _ _ _ hblock
  · cases happly

theorem tip_advanceBlock {leader : Ledger × StakeSnapshots → Except String Unit}
    {core next : Ledger × StakeSnapshots} {block : Block Body}
    (hadvance : ledger.advanceBlock leader core block = (.ok (), next)) :
    ledger.tip next.1 = block.point := by
  unfold advanceBlock at hadvance
  split at hadvance
  · cases hadvance
  · split at hadvance
    · cases hadvance
    · exact tip_applyWithFees hadvance

variable {final state : Tracked Ledger Cursor} {blocks : List (Block Body)}

/-- After the blocks of a chain the ledger is at the last of them. -/
theorem tip_foldChain {start last : Ledger × StakeSnapshots} {below : List (Block Body)}
    (hstart : ledger.tip start.1 = tipOf below) (hfold : ledger.foldChain start blocks = .ok last) :
    ledger.tip last.1 = tipOf (below ++ blocks) := by
  induction blocks using List.reverseRecOn with
  | nil =>
    cases hfold
    rw [List.append_nil, hstart]
  | append_singleton earlier block ih =>
    rw [foldChain, List.foldlM_append] at hfold
    obtain ⟨middle, -, hblock⟩ := bind_eq_ok.mp hfold
    rw [List.foldlM_cons] at hblock
    obtain ⟨next, hadvance, hdone⟩ := bind_eq_ok.mp hblock
    cases hdone
    unfold outcome at hadvance
    split at hadvance
    · next core hcore =>
      cases hadvance
      rw [← List.append_assoc, tipOf_append_singleton]
      exact tip_advanceBlock hcore
    · cases hadvance

/-- Sync replays stored blocks as the fold does. -/
theorem replayAll_of_replayEach (hreplay : replayEach ledger.sync state blocks = .ok final) :
    ledger.replayAll state.core blocks = .ok final.core := by
  induction blocks generalizing state with
  | nil =>
    cases hreplay
    rfl
  | cons block later ih =>
    unfold replayEach at hreplay
    split at hreplay
    · rename_i next hblock
      obtain ⟨core, hcore, rfl⟩ := map_eq_ok.mp hblock
      have hlater := ih hreplay
      rw [replayAll, List.foldlM_cons, hcore]
      exact hlater
    · cases hreplay

theorem replayAll_append {start middle final : Ledger × StakeSnapshots}
    {front rest : List (Block Body)} (hfront : ledger.replayAll start front = .ok middle)
    (hrest : ledger.replayAll middle rest = .ok final) :
    ledger.replayAll start (front ++ rest) = .ok final := by
  rw [replayAll, List.foldlM_append]
  exact bind_eq_ok.mpr ⟨middle, hfront, hrest⟩

/-- The stores hold a chain.  Slots do not decrease along it; an epoch boundary block shares the
slot of the block after it. -/
structure HoldsChain (db : ChainDb Body Data) (chain : List (Block Body)) : Prop where
  split : ∃ front overlap rest, Split db chain front overlap rest
  distinct : (chain.map blockHash).Nodup
  sorted : chain.Pairwise fun earlier later => earlier.header.slotNo ≤ later.header.slotNo

theorem HoldsChain.truncate {chain : List (Block Body)} (hchain : HoldsChain db chain)
    (progress : MultiEraSyncProgress Body) :
    HoldsChain (truncateForRollback db progress) chain := by
  obtain ⟨hvolatile, himmutable⟩ := sameBlocks_truncateForRollback db progress
  obtain ⟨front, overlap, rest, hsplit⟩ := hchain.split
  refine ⟨⟨front, overlap, rest, ?_, ?_, hsplit.chain⟩, hchain.distinct, hchain.sorted⟩
  · rw [himmutable]
    exact hsplit.immutable
  · rw [hvolatile]
    exact hsplit.volatile

/-- Recovery replays what the chain has after the restored state, on the restored ledger state but
the tracked snapshots. -/
theorem replayAll_of_recovery {chain : List (Block Body)} (hchain : HoldsChain db chain)
    {tracked base recovered : Tracked Ledger Cursor}
    (hrecover : recoverLedgerStateChaindb ledger.sync db tracked base = .ok recovered) :
    ∃ restored, restoreForRecovery ledger.sync db base = .ok restored ∧
      ∀ upTo rest, chain = upTo ++ rest → ledger.tip restored.core.1 = tipOf upTo →
        ledger.replayAll (restored.core.1, tracked.core.2) rest = .ok recovered.core := by
  obtain ⟨front, overlap, after, hsplit⟩ := hchain.split
  obtain ⟨restored, hrestored, hrecover⟩ := bind_eq_ok.mp hrecover
  obtain ⟨immutableBlocks, himmutable, hrecover⟩ := bind_eq_ok.mp hrecover
  obtain ⟨middle, hmiddle, hrecover⟩ := bind_eq_ok.mp hrecover
  obtain ⟨volatileBlocks, hvolatile, hrecover⟩ := bind_eq_ok.mp hrecover
  obtain ⟨final, hfinal, hrecover⟩ := bind_eq_ok.mp hrecover
  obtain rfl : final = recovered := by
    split at hrecover
    · cases hrecover
    · exact Except.ok.inj hrecover
  refine ⟨restored, hrestored, fun upTo rest hsplitAt htip => ?_⟩
  have hknown : db.immutable.suffixAfter (tipOf upTo) = .ok immutableBlocks := by
    rw [← htip]
    exact liftStorage_eq_ok himmutable
  obtain ⟨replayed, rfl, hreplayed⟩ :=
    recoveryBlocks_of_ok hsplit hchain.distinct hchain.sorted hsplitAt hknown
  obtain rfl : volatileBlocks = replayed := by
    have hfound := liftStorage_eq_ok hvolatile
    have hsame : ledger.sync.tip restored = tipOf upTo := htip
    rw [hsame, hreplayed] at hfound
    exact (Except.ok.inj hfound).symm
  exact replayAll_append (replayAll_of_replayEach hmiddle) (replayAll_of_replayEach hfinal)

/-! ## The steps of the batch -/

/-- The blocks of a batch that rolls forward, or not, and then back. -/
structure ForwardThenBack (progress : MultiEraSyncProgress Body)
    (forward : Option (List (Block Body))) (point : Point) : Prop where
  steps : progress.steps = (forward.map SyncStep.rollForward).toList ++ [.rollBackward point]
  count : progress.rollbackCount = 1

section

variable {point : Point} (hbatch : ForwardThenBack progress forward point)
include hbatch

theorem ForwardThenBack.rollbackPoints : progress.rollbackPoints = [point] := by
  rw [MultiEraSyncProgress.rollbackPoints, hbatch.steps]
  cases forward <;> rfl

theorem ForwardThenBack.forwardBlocks : progress.forwardBlocks = forward.getD [] := by
  rw [MultiEraSyncProgress.forwardBlocks, hbatch.steps]
  cases forward with
  | none => rfl
  | some blocks => simp [SyncStep.blocks]

/-- The ledger moves by one of the two ways of a rollback. -/
theorem ForwardThenBack.moveLedger_ok {tracking : LedgerCheckpointTracking (Tracked Ledger Cursor)}
    {state : Tracked Ledger Cursor}
    (hmove : moveLedger ledger.sync db tracking progress = (.ok (), state)) :
    if point = .origin ∧ ledger.tip tracking.baseLedgerState.core.1 = .origin then
      advanceEach ledger.sync
        ⟨(tracking.baseLedgerState.core.1, tracking.ledgerState.core.2), ledger.nonceState⟩
        (forward.getD []) = (.ok (), state)
    else
      recoverLedgerStateChaindb ledger.sync db tracking.ledgerState tracking.baseLedgerState =
        .ok state := by
  have hfast : initialSyncRollbackToOrigin ledger.sync tracking progress = true ↔
      point = .origin ∧ ledger.tip tracking.baseLedgerState.core.1 = .origin := by
    simp only [initialSyncRollbackToOrigin, hbatch.rollbackPoints, List.head?_cons,
      Option.some.injEq, Bool.and_eq_true, decide_eq_true_iff]
    rfl
  unfold moveLedger at hmove
  rw [hbatch.count, if_neg Nat.one_ne_zero] at hmove
  split at hmove
  · cases hmove
  · by_cases horigin : initialSyncRollbackToOrigin ledger.sync tracking progress = true
    · rw [if_pos (hfast.mp horigin)]
      rw [if_pos horigin] at hmove
      unfold restartFromBase at hmove
      split at hmove
      · cases hmove
      · rw [← hbatch.forwardBlocks]
        exact hmove
    · rw [if_neg (mt hfast.mpr horigin)]
      rw [if_neg horigin] at hmove
      unfold recoverAfterRollback at hmove
      split at hmove
      · cases hmove
      · rename_i recovered hrecover
        split at hmove
        · cases hmove
        · rw [hrecover]
          exact congrArg Except.ok (Prod.mk.inj hmove).2

end

/-! ## Rollback and replay -/

/-- A block of the epoch of a tip that pays no fees. -/
structure QuietAfter (ledger : BoundaryLedger Ledger Cursor Body Data) (tip : Point)
    (block : Block Body) : Prop where
  epoch : tip.slot.elim 0 ledger.slotToEpoch = ledger.slotToEpoch block.header.slotNo
  fees : ∀ state, ledger.totalTransactionFees state block = 0

/-- Apply blocks to the ledger state alone. -/
def applyAll (ledger : BoundaryLedger Ledger Cursor Body Data) (state : Ledger)
    (blocks : List (Block Body)) : Except String Ledger :=
  blocks.foldlM (fun state block => outcome (ledger.applyBlockValidated state block)) state

section

variable {core : Ledger × StakeSnapshots} {block : Block Body}

theorem outcome_applyWithFees_zero :
    outcome (ledger.applyWithFees 0 core block) =
      (outcome (ledger.applyBlockValidated core.1 block)).map (·, core.2) := by
  unfold applyWithFees
  rcases ledger.applyBlockValidated core.1 block with ⟨⟨⟩ | ⟨⟩, next⟩ <;> rfl

variable (hquiet : ledger.QuietAfter (ledger.tip core.1) block)
include hquiet

theorem crossEpoch_of_quiet : ledger.crossEpoch core block.header.slotNo = (.ok (), core) :=
  if_neg (by simp [isNewEpoch, hquiet.epoch])

theorem advanceBlock_of_quiet :
    outcome (ledger.advanceBlock (fun _ => .ok ()) core block) =
      (outcome (ledger.applyBlockValidated core.1 block)).map (·, core.2) := by
  unfold advanceBlock
  rw [crossEpoch_of_quiet hquiet]
  dsimp only
  rw [hquiet.fees]
  exact outcome_applyWithFees_zero

theorem replayStorageBlock_of_quiet :
    outcome (ledger.replayStorageBlock core block) =
      (outcome (ledger.applyBlockValidated core.1 block)).map (·, core.2) := by
  unfold replayStorageBlock
  split
  · exact advanceBlock_of_quiet hquiet
  · rw [crossEpoch_of_quiet hquiet]
    exact outcome_applyWithFees_zero

end

/-- Quiet blocks pass the snapshots by, in the fold as in a replay. -/
theorem foldlM_of_quiet
    {step : Ledger × StakeSnapshots → Block Body → Except String (Ledger × StakeSnapshots)}
    (hstep : ∀ core block, ledger.QuietAfter (ledger.tip core.1) block → step core block =
      (outcome (ledger.applyBlockValidated core.1 block)).map (·, core.2))
    {core : Ledger × StakeSnapshots}
    (hquiet : ∀ block ∈ blocks, ledger.QuietAfter (ledger.tip core.1) block) :
    blocks.foldlM step core = (ledger.applyAll core.1 blocks).map (·, core.2) := by
  induction blocks generalizing core with
  | nil => rfl
  | cons block later ih =>
    obtain ⟨hfirst, hlater⟩ := List.forall_mem_cons.mp hquiet
    rw [applyAll, List.foldlM_cons, List.foldlM_cons, hstep core block hfirst]
    rcases happly : ledger.applyBlockValidated core.1 block with ⟨⟨reason⟩ | ⟨⟨⟩⟩, next⟩
    · rfl
    · refine @ih (next, core.2) fun other hother => ⟨?_, (hlater other hother).fees⟩
      have htip : ledger.tip next = block.point := ledger.tip_applyBlockValidated _ _ _ happly
      rw [htip, ← (hlater other hother).epoch, hfirst.epoch]
      rfl

theorem foldChain_append {start middle : Ledger × StakeSnapshots} {front rest : List (Block Body)}
    (hfront : ledger.foldChain start front = .ok middle) :
    ledger.foldChain start (front ++ rest) = ledger.foldChain middle rest := by
  rw [foldChain, List.foldlM_append]
  exact congrArg (· >>= _) hfront

section

variable {More Evaluator : Type}

/-- A stored block with its transactions, as `apply_block_validated` takes it. -/
def shelleyBlock (block : Block (List Tx)) : EarlyBlock :=
  ⟨.shelley, block.header, none, none, block.body⟩

/-- The fees that the decoded transactions state. -/
def shelleyFees (env : LedgerCallEnv More Evaluator) (block : Block (List Tx)) : UInt64 :=
  (block.body.map fun tx =>
    match env.earlyRules.shelley.decode tx with
    | .ok decoded => decoded.body.fee
    | .error _ => 0).sum

/-- The ledger on Shelley blocks, without a nonce context and without nonce sidecars. -/
def shelley (env : LedgerCallEnv More Evaluator) (epochSize : UInt64) :
    BoundaryLedger BoundaryState Unit (List Tx) SavedState where
  tip state := state.tip
  applyBlockValidated state block :=
    match (earlyCall env (shelleyBlock block)).run state with
    | (next, .ok ()) => (.ok (), next)
    | (left, .error _) => (.error "block", left)
  applyEpochBoundary epoch state snapshots :=
    match Yggdrasil.Ledger.applyEpochBoundary epoch ∅ state snapshots with
    | .ok (next, rotated, _) => (.ok (), next, rotated)
    | .error _ => (.error "epoch boundary", (runBoundary epoch ∅ snapshots state).1, snapshots)
  totalTransactionFees _ := shelleyFees env
  hasRawCbor _ := true
  slotToEpoch slot := slot / epochSize
  nonceState := ()
  tickNonce _ _ := ()
  leaderCheck _ _ _ _ := .ok ()
  encode := save
  decode saved := some saved.load
  rehydrate restored base := rehydrateRuntimeGenesisFrom base restored
  missingCostModels restored base :=
    (base.protocolParams.bind (·.costModels)).isSome &&
      (restored.protocolParams.bind (·.costModels)).isNone
  truncateChainDep _ := .ok ()
  restoreChainDep _ _ := .ok ()
  chainEntry block :=
    ⟨block.header.hash, block.header.slotNo, block.header.blockNo, some block.header.prevHash⟩
  tip_applyBlockValidated := by
    intro state block next happly
    split at happly
    · rename_i left hrun
      cases happly
      obtain ⟨_, -, hresult⟩ := bind_eq_ok.mp ((StagedCall.run_eq_ok _).mp hrun)
      obtain ⟨⟨committed, items⟩, -, hresult⟩ := bind_eq_ok.mp hresult
      obtain ⟨done, -, hclose⟩ := bind_eq_ok.mp hresult
      cases hclose
      rfl
    · cases happly

/-- Each transaction pays the last output on with a fee of 200000. -/
def payingEnv : LedgerCallEnv (Option ShelleyUpdate) Unit :=
  .permissive fun tx =>
    .ok
      { id := tx.id
        size := 0
        body := ⟨[⟨tx.id - 1, 0⟩],
          [⟨[], if tx.id = 2 then 9800000 else 9600000⟩], 200000, 100⟩
        certificates := none
        withdrawals := none
        witnessBytes := none
        auxiliaryData := none
        more := none }

def genesisTracked : Tracked BoundaryState Unit where
  core :=
    ({ BoundaryState.new .shelley with
        protocolParams := some {}
        multiEraUtxo := KeyedMap.single ⟨1, 0⟩ (.shelley [] 10000000)
        rest := { (BoundaryState.new .shelley).rest with
          other := { (BoundaryState.new .shelley).rest.other with
            shelleyUtxo := KeyedMap.single ⟨1, 0⟩ ⟨[], 10000000⟩ } } }, .new)
  cursor := ()

/-- Two blocks of one epoch with one payment each. -/
def payingBlock (number : BlockNo) : Block (List Tx) where
  header := ⟨.ofNat _ number.toNat, .ofNat _ (number.toNat - 1), number, number⟩
  body := [⟨.ofNat _ (number.toNat + 1), [], none, none, none⟩]

/-- The state after both blocks. -/
def bothPaid : Tracked BoundaryState Unit :=
  (advanceEach (shelley payingEnv 100).sync genesisTracked [payingBlock 1, payingBlock 2]).2

/-- The second block is rolled back. -/
def backToFirst : MultiEraSyncProgress (List Tx) where
  currentPoint := (payingBlock 1).point
  steps := [.rollBackward (payingBlock 1).point]
  rollbackCount := 1

/-- The stores with the first block only. -/
def firstStored : ChainDb (List Tx) SavedState :=
  { ChainDb.empty with volatile := ⟨[payingBlock 1]⟩ }

/-- The call after the second block has left the stores. -/
def afterRollback : Except (SyncError (List Tx)) Unit × ChainDb (List Tx) SavedState ×
    LedgerCheckpointTracking (Tracked BoundaryState Unit) :=
  updateLedgerCheckpointAfterProgress (shelley payingEnv 100).sync ⟨0, fun _ _ _ => false⟩
    firstStored ⟨genesisTracked, bothPaid, .origin⟩ backToFirst

def emptyBlock (number : BlockNo) : Block (List Tx) := { payingBlock number with body := [] }

/-- The state after the first payment, which is kept as a checkpoint. -/
def firstPaid : Tracked BoundaryState Unit :=
  (advanceEach (shelley payingEnv 100).sync genesisTracked [payingBlock 1]).2

/-- The state after two empty blocks more. -/
def thenEmpty : Tracked BoundaryState Unit :=
  (advanceEach (shelley payingEnv 100).sync firstPaid [emptyBlock 2, emptyBlock 3]).2

/-- The stores after the last of the three blocks has left them. -/
def twoStored : ChainDb (List Tx) SavedState where
  immutable := ⟨[payingBlock 1]⟩
  volatile := ⟨[emptyBlock 2]⟩
  ledger := ⟨[(1, save firstPaid.core.1)]⟩

def backToSecond : MultiEraSyncProgress (List Tx) :=
  ⟨(emptyBlock 2).point, [.rollBackward (emptyBlock 2).point], 1⟩

/-- The call after the third block has left the stores. -/
def afterQuietRollback : Except (SyncError (List Tx)) Unit × ChainDb (List Tx) SavedState ×
    LedgerCheckpointTracking (Tracked BoundaryState Unit) :=
  updateLedgerCheckpointAfterProgress (shelley payingEnv 100).sync ⟨0, fun _ _ _ => false⟩
    twoStored ⟨genesisTracked, thenEmpty, .origin⟩ backToSecond

end

end BoundaryLedger

end Yggdrasil.Node.Sync
