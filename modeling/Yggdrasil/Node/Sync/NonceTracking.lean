import Yggdrasil.Consensus.Nonce.Evolution
import Yggdrasil.Ledger.Error
import Yggdrasil.Node.Sync.RejectedBlocks

/-!
# The nonce state along a run of batches

`run_verified_sync_service_chaindb` processes a batch with `apply_verified_progress_to_chaindb` and
then with `apply_nonce_evolution_to_progress`, which folds in every block the batch rolled forward.
Its tracking has no directory for sidecars (`default_checkpoint_tracking`), so
`restore_chain_dep_state_after_rollback` restores nothing: every rollback sets the nonce state to
the one at the start of the service, wherever it goes.

`nonceFollows_run`: the nonce state is the fold over the stored chain after every batch if what
contributes to the nonce in the chain that a rollback leaves is what contributed at the start of the
service and then what the batch rolled forward.

An error ends the service.
-/

namespace Yggdrasil.Node.Sync

open Ledger Consensus Consensus.Nonce Storage Library

variable {State Body Data : Type}

/-- What the nonce evolution reads of blocks, and its parameters. -/
structure NonceSource (Body : Type) where
  hashBytes256 : Bytes → Hash32
  config : NonceEvolutionConfig
  /-- What is read of the decoded block; of a Byron block nothing. -/
  view : Block Body → Option NonceBlock

namespace NonceSource

variable (source : NonceSource Body)

def applyNonceEvolution (state : NonceEvolutionState) (block : Block Body) : NonceEvolutionState :=
  match source.view block with
  | some view => state.applyBlock source.hashBytes256 source.config view
  | none => state

/-- The fold over blocks. -/
def evolve (state : NonceEvolutionState) (blocks : List (Block Body)) : NonceEvolutionState :=
  blocks.foldl source.applyNonceEvolution state

/-- What blocks contribute to the nonce. -/
def contributions (blocks : List (Block Body)) : List NonceBlock := blocks.filterMap source.view

theorem evolve_append (state : NonceEvolutionState) (front rest : List (Block Body)) :
    source.evolve state (front ++ rest) = source.evolve (source.evolve state front) rest :=
  List.foldl_append

/-- The fold is over what the blocks contribute. -/
theorem evolve_eq (state : NonceEvolutionState) (blocks : List (Block Body)) :
    source.evolve state blocks = (source.contributions blocks).foldl
      (fun state view => state.applyBlock source.hashBytes256 source.config view) state := by
  rw [evolve, contributions, List.foldl_filterMap]
  refine List.foldl_ext _ _ _ fun state block _ => ?_
  unfold applyNonceEvolution
  cases source.view block <;> rfl

end NonceSource

/-! ## The service -/

/-- What stays the same while the service runs. -/
structure NonceService (State Body Data : Type) where
  ledger : SyncLedger State Body Data
  policy : LedgerCheckpointPolicy
  source : NonceSource Body

/-- What the service has between two batches; `originNonceState` is the nonce state it was started
with. -/
structure NonceServiceState (State Body Data : Type) where
  sync : SyncState State Body Data
  nonceState : NonceEvolutionState
  originNonceState : NonceEvolutionState

/-- The service before its first batch. -/
def NonceServiceState.start (sync : SyncState State Body Data) (nonceState : NonceEvolutionState) :
    NonceServiceState State Body Data :=
  ⟨sync, nonceState, nonceState⟩

/-- A batch as `sync_batch_verified_with_tentative` builds it. -/
structure VerifiedBatch (Body : Type) where
  forward : Option (List (Block Body))
  back : Option Point

/-- The blocks of the stores in order. -/
def storedChain (db : ChainDb Body Data) : List (Block Body) :=
  db.immutable.blocks ++ db.volatile.blocks

namespace VerifiedBatch

def blocks (batch : VerifiedBatch Body) : List (Block Body) := batch.forward.getD []

/-- The progress of a batch on top of a chain. -/
def progress (batch : VerifiedBatch Body) (chain : List (Block Body)) :
    MultiEraSyncProgress Body where
  currentPoint := batch.back.getD (tipOf (chain ++ batch.blocks))
  steps := (batch.forward.map SyncStep.rollForward).toList ++
    (batch.back.map SyncStep.rollBackward).toList
  rollbackCount := if batch.back.isSome then 1 else 0

end VerifiedBatch

namespace NonceService

variable (service : NonceService State Body Data)

/-- The nonce part of `update_ledger_checkpoint_after_progress` without sidecars. -/
def rolledBackNonce (state : NonceServiceState State Body Data) (rollbackCount : Nat) :
    NonceEvolutionState :=
  if 0 < rollbackCount then state.originNonceState else state.nonceState

def processBatch (state : NonceServiceState State Body Data) (batch : VerifiedBatch Body) :
    Except String (NonceServiceState State Body Data) :=
  let progress := batch.progress (storedChain state.sync.db)
  match applyVerifiedProgressToChaindb service.ledger service.policy state.sync progress with
  | (.error _, _) => .error "apply"
  | (.ok (), sync) =>
    let rolledBack := rolledBackNonce state progress.rollbackCount
    -- every block the batch rolled forward, whether or not it was rolled back
    .ok { state with sync, nonceState := service.source.evolve rolledBack progress.forwardBlocks }

end NonceService

/-! ## The stores after a batch -/

theorem addMissing_fresh {stored blocks : List (Block Body)}
    (hdistinct : ((stored ++ blocks).map blockHash).Nodup) :
    addMissing stored blocks = stored ++ blocks := by
  have hloop : ChainDb.appendMissing ⟨stored⟩ blocks = (.ok (), ⟨stored ++ blocks⟩) :=
    appendMissing_fresh hdistinct
  rw [appendMissing_eq] at hloop
  exact congrArg (·.2.blocks) hloop

variable {db : ChainDb Body Data}

theorem storedChain_promoteVolatilePrefix (hdistinct : ((storedChain db).map blockHash).Nodup)
    (point : Point) : storedChain (db.promoteVolatilePrefix point).2 = storedChain db := by
  rcases promoteVolatilePrefix_cases db point with hsame | ⟨count, hmoved⟩
  · rw [hsame]
  · have hfresh : ((db.immutable.blocks ++ db.volatile.blocks.take count).map blockHash).Nodup := by
      refine hdistinct.sublist (List.Sublist.map _ ?_)
      exact (List.take_sublist count _).append_left _
    simp [hmoved, storedChain, addMissing_fresh hfresh]

namespace VerifiedBatch

/-- The volatile store after the steps of a batch. -/
def volatileAfter (batch : VerifiedBatch Body) (volatile : InMemoryVolatile Body) :
    InMemoryVolatile Body :=
  match batch.back with
  | none => { blocks := volatile.blocks ++ batch.blocks }
  | some point =>
    ({ blocks := volatile.blocks ++ batch.blocks } : InMemoryVolatile Body).rollbackTo point

/-- The stored chain after the steps of a batch. -/
def chainAfter (batch : VerifiedBatch Body) (db : ChainDb Body Data) : List (Block Body) :=
  db.immutable.blocks ++ (batch.volatileAfter db.volatile).blocks

/-- A batch leaves a front part of the chain that it extends. -/
theorem chainAfter_isPrefix (batch : VerifiedBatch Body) (db : ChainDb Body Data) :
    batch.chainAfter db <+: storedChain db ++ batch.blocks := by
  unfold chainAfter storedChain
  rw [List.append_assoc, List.prefix_append_right_inj]
  unfold volatileAfter
  split
  · exact List.prefix_refl _
  · unfold InMemoryVolatile.rollbackTo
    split
    · exact List.nil_prefix
    · split
      · exact List.take_prefix _ _
      · exact List.prefix_refl _

theorem chainAfter_of_back_none {batch : VerifiedBatch Body} (hback : batch.back = none)
    (db : ChainDb Body Data) : batch.chainAfter db = storedChain db ++ batch.blocks := by
  simp [chainAfter, volatileAfter, hback, storedChain]

theorem forwardBlocks_progress (batch : VerifiedBatch Body) (chain : List (Block Body)) :
    (batch.progress chain).forwardBlocks = batch.blocks := by
  obtain ⟨forward, back⟩ := batch
  cases forward <;> cases back <;>
    simp [MultiEraSyncProgress.forwardBlocks, progress, blocks, SyncStep.blocks]

theorem applyStepsToVolatile_progress (batch : VerifiedBatch Body) (chain : List (Block Body))
    {volatile : InMemoryVolatile Body}
    (hdistinct : ((volatile.blocks ++ batch.blocks).map blockHash).Nodup) :
    applyStepsToVolatile volatile (batch.progress chain).steps =
      (.ok (), batch.volatileAfter volatile) := by
  have hadd : addEach volatile batch.blocks = (.ok (), ⟨volatile.blocks ++ batch.blocks⟩) := by
    rw [addEach_eq, addMissing_fresh hdistinct]
  obtain ⟨forward, back⟩ := batch
  cases forward with
  | none =>
    have hsame : ({ blocks := volatile.blocks ++ [] } : InMemoryVolatile Body) = volatile := by
      rw [List.append_nil]
    cases back with
    | none => exact congrArg (Prod.mk _) hsame.symm
    | some point =>
      simp only [volatileAfter, blocks, Option.getD_none, hsame]
      rfl
  | some added =>
    simp only [blocks, Option.getD_some] at hadd
    cases back with
    | none | some point =>
      simp [progress, applyStepsToVolatile, applyMultiEraStepToVolatile, hadd, volatileAfter,
        blocks]

end VerifiedBatch

/-- The stored chain after the first two phases of a batch. -/
theorem storedChain_settleStores {window : Option ChainState} {batch : VerifiedBatch Body}
    {chain : List (Block Body)}
    (hdistinct : ((storedChain db ++ batch.blocks).map blockHash).Nodup) :
    storedChain (settleStores ledger db window (batch.progress chain).steps).2.1 =
      batch.chainAfter db := by
  have hvolatile : ((db.volatile.blocks ++ batch.blocks).map blockHash).Nodup := by
    refine hdistinct.sublist (List.Sublist.map _ ?_)
    rw [storedChain, List.append_assoc]
    exact List.sublist_append_right _ _
  refine settleStores_keeps (I := fun db' => storedChain db' = batch.chainAfter db)
    (fun settled point hsettled => ?_) ?_
  · rw [storedChain_promoteVolatilePrefix, hsettled]
    rw [hsettled]
    exact hdistinct.sublist ((batch.chainAfter_isPrefix db).sublist.map _)
  · rw [batch.applyStepsToVolatile_progress chain hvolatile]
    rfl

/-! ## Runs of the service -/

namespace NonceService

variable (service : NonceService State Body Data)

/-- The nonce state is the fold over the stored chain, from the state at genesis. -/
def NonceFollows (genesis : NonceEvolutionState) (state : NonceServiceState State Body Data) :
    Prop :=
  state.nonceState = service.source.evolve genesis (storedChain state.sync.db)

/-- The blocks of a batch are new to the chain, and the batch is processed. -/
def batchEnabled (state : NonceServiceState State Body Data) (batch : VerifiedBatch Body) : Prop :=
  ((storedChain state.sync.db ++ batch.blocks).map blockHash).Nodup ∧
    (service.processBatch state batch).isOk = true

/-- The service; a batch that fails ends it. -/
def system (start : NonceServiceState State Body Data) :
    TransitionSystem (NonceServiceState State Body Data) (VerifiedBatch Body) where
  start := start
  enabled := service.batchEnabled
  step state batch :=
    match service.processBatch state batch with
    | .ok next => next
    | .error _ => state

/-- A rollback leaves a chain with the contributions of the first chain, followed by those of the
blocks that the batch rolled forward. -/
def BackToStart (first : List (Block Body)) (state : NonceServiceState State Body Data)
    (batch : VerifiedBatch Body) : Prop :=
  batch.back = none ∨ service.source.contributions (batch.chainAfter state.sync.db) =
    service.source.contributions first ++ service.source.contributions batch.blocks

variable {service}

variable {batch : VerifiedBatch Body} {state next : NonceServiceState State Body Data}

/-- What a processed batch has done. -/
theorem processBatch_eq_ok (hprocess : service.processBatch state batch = .ok next) :
    applyVerifiedProgressToChaindb service.ledger service.policy state.sync
        (batch.progress (storedChain state.sync.db)) = (.ok (), next.sync) ∧
      next.nonceState = service.source.evolve (if batch.back = none then state.nonceState
        else state.originNonceState) batch.blocks ∧
      next.originNonceState = state.originNonceState := by
  unfold processBatch at hprocess
  dsimp only at hprocess
  split at hprocess
  · cases hprocess
  · rename_i sync happly
    cases hprocess
    refine ⟨happly, ?_, rfl⟩
    rw [batch.forwardBlocks_progress]
    cases hback : batch.back <;> simp [rolledBackNonce, VerifiedBatch.progress, hback]

theorem storedChain_of_apply (service : NonceService State Body Data)
    (hdistinct : ((storedChain state.sync.db ++ batch.blocks).map blockHash).Nodup) :
    storedChain (applyVerifiedProgressToChaindb service.ledger service.policy state.sync
      (batch.progress (storedChain state.sync.db))).2.db = batch.chainAfter state.sync.db := by
  have hsame := sameBlocks_applyVerifiedProgress service.ledger service.policy state.sync
    (batch.progress (storedChain state.sync.db))
  rw [storedChain, hsame.1, hsame.2]
  exact storedChain_settleStores hdistinct

/-- What the service keeps: it started with the fold over the first chain. -/
structure Tracks (service : NonceService State Body Data) (genesis : NonceEvolutionState)
    (first : List (Block Body)) (state : NonceServiceState State Body Data) : Prop where
  follows : service.NonceFollows genesis state
  started : state.originNonceState = service.source.evolve genesis first

theorem tracks_step {genesis : NonceEvolutionState} {first : List (Block Body)}
    (hdistinct : ((storedChain state.sync.db ++ batch.blocks).map blockHash).Nodup)
    (hprocess : service.processBatch state batch = .ok next)
    (hstate : service.Tracks genesis first state) (hback : service.BackToStart first state batch) :
    service.Tracks genesis first next := by
  obtain ⟨happly, hnonce, horigin⟩ := processBatch_eq_ok hprocess
  refine ⟨?_, horigin.trans hstate.started⟩
  have hchain := storedChain_of_apply service hdistinct
  rw [happly] at hchain
  unfold NonceFollows
  rw [hnonce, hchain]
  by_cases hnone : batch.back = none
  · rw [if_pos hnone, VerifiedBatch.chainAfter_of_back_none hnone, NonceSource.evolve_append,
      hstate.follows]
  · rw [if_neg hnone, hstate.started, ← NonceSource.evolve_append, NonceSource.evolve_eq,
      NonceSource.evolve_eq, hback.resolve_left hnone, NonceSource.contributions,
      List.filterMap_append]
    rfl

/-- Every block contributes an output. -/
def oneOutputSource : NonceSource Unit where
  hashBytes256 bytes := .ofNat _ (bytes.length + 1)
  config := ⟨100, 10, .neutral, none⟩
  view block := some ⟨block.header.slotNo, [1], none, .tPraos⟩

/-- A service over the ledger that only knows its tip. -/
def tipService : NonceService Point Unit Point where
  ledger := tipLedger 0
  policy := everyBatch
  source := oneOutputSource

def freshService : NonceServiceState Point Unit Point := .start freshNode (.new .neutral)

/-- The peer confirms the origin, sends a block, and goes back to the origin. -/
def confirmedThenUndone : List (VerifiedBatch Unit) :=
  [⟨none, some .origin⟩, ⟨some [firstBlock], none⟩, ⟨none, some .origin⟩]

instance (state : NonceServiceState Point Unit Point) (batch : VerifiedBatch Unit) :
    Decidable ((tipService.system freshService).enabled state batch) :=
  inferInstanceAs (Decidable (_ ∧ _))

/-- Two blocks, and a rollback to the first of them. -/
def backToFirst : List (VerifiedBatch Unit) :=
  [⟨some [firstBlock, blockAt 8 20 2], none⟩, ⟨none, some firstBlock.point⟩]

end NonceService

end Yggdrasil.Node.Sync
