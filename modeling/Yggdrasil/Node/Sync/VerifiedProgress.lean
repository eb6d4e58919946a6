import Yggdrasil.Node.Sync.ChainTracking
import Yggdrasil.Storage.Recovery

/-!
# Applying verified progress to the stores

`apply_verified_progress_to_chaindb` and `update_ledger_checkpoint_after_progress` of
`crates/node/sync/src/lib.rs`.  The call works in three phases with an early return after every
fallible part: the steps go to the volatile store, the chain window is tracked and stable
prefixes are promoted, and only then the ledger is advanced, by the blocks of the progress or,
after a rollback, by recovery from the stores.

The ledger is a parameter (`SyncLedger`): its state stands for the ledger state with the stake
snapshots, the pool block counts and the nonce cursor of the leader check, `advance` for what is
done with one block of the progress (epoch boundary, leader check, block application), and
`applyBlock` for what recovery does with one stored block, with or without epoch boundaries.
The ids of transactions in rolled back blocks, the epoch events, the counts in the outcome and
the stake-snapshot file are left out.
-/

namespace Yggdrasil.Node.Sync

open Ledger Consensus Storage

variable {State Body Data : Type}

/-- One step of the progress with its blocks. -/
inductive SyncStep (Body : Type) where
  | rollForward (blocks : List (Block Body))
  | rollBackward (point : Point)

namespace SyncStep

def blocks : SyncStep Body → List (Block Body)
  | rollForward blocks => blocks
  | rollBackward _ => []

/-- The point a step rolls back to. -/
def rollbackPoint : SyncStep Body → Option Point
  | rollForward _ => none
  | rollBackward point => some point

end SyncStep

/-- A verified batch of steps. -/
structure MultiEraSyncProgress (Body : Type) where
  currentPoint : Point
  steps : List (SyncStep Body)
  rollbackCount : Nat

namespace MultiEraSyncProgress

def forwardBlocks (progress : MultiEraSyncProgress Body) : List (Block Body) :=
  progress.steps.flatMap SyncStep.blocks

def rollbackPoints (progress : MultiEraSyncProgress Body) : List Point :=
  progress.steps.filterMap SyncStep.rollbackPoint

end MultiEraSyncProgress

/-- Why the call can fail.  A ledger error keeps the rejected block and the blocks that were to
be applied after it. -/
inductive SyncError (Body : Type) where
  | storage (reason : StorageError)
  | consensus (reason : ConsensusError)
  | ledger (block : Block Body) (later : List (Block Body)) (reason : String)
  | checkpointDecode
  | tipMismatch (recovered best : Point)
  | chainDep (reason : String)

/-- The ledger as sync drives it. -/
structure SyncLedger (State Body Data : Type) extends LedgerOps State Body Data where
  /-- Set the nonce cursor of a batch. -/
  beginBatch : State → State
  /-- Advance by one block of the progress; an error can leave a changed state. -/
  advance : State → Block Body → Except String Unit × State
  /-- The restored checkpoint is usable: it has the cost models that the genesis has. -/
  usable : (restored base : State) → Bool
  /-- The base ledger state next to what else is tracked. -/
  resetToBase : (tracked base : State) → State
  /-- The state a replay starts from, with the tracked stake snapshots. -/
  beginReplay : (tracked restored : State) → State
  /-- What follows a replay: the epoch of the tip, or fresh stake snapshots. -/
  afterRecovery : State → State
  /-- Truncate the nonce and certificate-counter history after a point. -/
  truncateChainDep : Point → Except String Unit
  /-- Restore nonces and certificate counters after a rollback. -/
  restoreChainDep : ChainDb Body Data → Point → Except String Unit
  /-- The window entry of a block. -/
  chainEntry : Block Body → ChainEntry

/-- What is tracked next to the stores. -/
structure LedgerCheckpointTracking (State : Type) where
  baseLedgerState : State
  ledgerState : State
  lastPersistedPoint : Point

/-- When checkpoints are written. -/
structure LedgerCheckpointPolicy where
  maxSnapshots : Nat
  /-- `shouldPersist lastPersisted current rolledBack`. -/
  shouldPersist : Point → Point → Bool → Bool

structure SyncState (State Body Data : Type) where
  db : ChainDb Body Data
  window : Option ChainState
  tracking : Option (LedgerCheckpointTracking State)

/-! ## Phase one: the volatile store -/

/-- Add a block unless its hash is already present. -/
def addIfAbsent (store : InMemoryVolatile Body) (block : Block Body) :
    Except StorageError (InMemoryVolatile Body) :=
  if (store.getBlock block.header.hash).isSome then .ok store else store.addBlock block

/-- Add blocks one by one; an error keeps those added before it. -/
def addEach (store : InMemoryVolatile Body) :
    List (Block Body) → Except StorageError Unit × InMemoryVolatile Body
  | [] => (.ok (), store)
  | block :: later =>
    match addIfAbsent store block with
    | .ok next => addEach next later
    | .error reason => (.error reason, store)

def applyMultiEraStepToVolatile (store : InMemoryVolatile Body) :
    SyncStep Body → Except StorageError Unit × InMemoryVolatile Body
  | .rollForward blocks => addEach store blocks
  | .rollBackward point => (.ok (), store.rollbackTo point)

/-- The loop over the steps. -/
def applyStepsToVolatile (store : InMemoryVolatile Body) :
    List (SyncStep Body) → Except StorageError Unit × InMemoryVolatile Body
  | [] => (.ok (), store)
  | step :: later =>
    match applyMultiEraStepToVolatile store step with
    | (.ok (), next) => applyStepsToVolatile next later
    | (.error reason, next) => (.error reason, next)

/-! ## Phase two: the chain window and promotion -/

variable (ledger : SyncLedger State Body Data) (policy : LedgerCheckpointPolicy)
  (db : ChainDb Body Data) (tracking : LedgerCheckpointTracking State)
  (progress : MultiEraSyncProgress Body)

/-- A step as the chain window sees it. -/
def trackStep : SyncStep Body → TrackStep
  | .rollForward blocks => .rollForward (blocks.map ledger.chainEntry)
  | .rollBackward point => .rollBackward point

/-- Promote up to the last entry that became stable, if any did. -/
def promoteStable (stable : List ChainEntry) : Except StorageError Unit × ChainDb Body Data :=
  match stable.getLast? with
  | none => (.ok (), db)
  | some entry =>
    match db.promoteVolatilePrefix entry.point with
    | (.ok _, next) => (.ok (), next)
    | (.error reason, next) => (.error reason, next)

/-- Track the steps in the window and promote what becomes stable. -/
def trackAndPromote (ledger : SyncLedger State Body Data) (db : ChainDb Body Data)
    (window : ChainState) :
    List (SyncStep Body) → Except (SyncError Body) Unit × ChainDb Body Data × ChainState
  | [] => (.ok (), db, window)
  | step :: later =>
    match trackChainStateEntries window (trackStep ledger step) with
    -- The window keeps what was rolled forward before the error; nothing is promoted.
    | (.error reason, next) => (.error (.consensus reason), db, next)
    | (.ok stable, next) =>
      match promoteStable db stable with
      | (.error reason, db) => (.error (.storage reason), db, next)
      | (.ok (), db) => trackAndPromote ledger db next later

/-- The second phase is skipped when no window is tracked. -/
def trackWindow (steps : List (SyncStep Body)) :
    Option ChainState → Except (SyncError Body) Unit × ChainDb Body Data × Option ChainState
  | none => (.ok (), db, none)
  | some window =>
    let (outcome, db, window) := trackAndPromote ledger db window steps
    (outcome, db, some window)

/-! ## Phase three: the ledger -/

/-- Advance by the blocks of the progress up to the first one the ledger rejects. -/
def advanceEach (ledger : SyncLedger State Body Data) (state : State) :
    List (Block Body) → Except (SyncError Body) Unit × State
  | [] => (.ok (), state)
  | block :: later =>
    match ledger.advance state block with
    | (.ok (), next) => advanceEach ledger next later
    | (.error reason, next) => (.error (.ledger block later reason), next)

/-- Replay stored blocks up to the first one the ledger rejects. -/
def replayEach (ledger : SyncLedger State Body Data) (state : State) :
    List (Block Body) → Except (SyncError Body) State
  | [] => .ok state
  | block :: later =>
    match ledger.applyBlock state block with
    | .ok next => replayEach ledger next later
    | .error reason => .error (.ledger block later reason)

/-- The checkpoint that recovery starts from, or the base state. -/
def restoreForRecovery (base : State) : Except (SyncError Body) State :=
  match db.snapshotAtCursor db.tip.slot with
  | none => .ok base
  | some (_, data) =>
    match ledger.decode data with
    -- Unlike `tryRestoreCheckpoint` this does not fall back to an older snapshot.
    | none => .error .checkpointDecode
    | some checkpoint =>
      let restored := ledger.rehydrate checkpoint base
      .ok (if ledger.usable restored base then restored else base)

/-- A storage result inside sync. -/
def liftStorage {α : Type} : Except StorageError α → Except (SyncError Body) α
  | .ok value => .ok value
  | .error reason => .error (.storage reason)

/-- Restore a checkpoint, replay what is stored after it, and compare tips. -/
def recoverLedgerStateChaindb (tracked base : State) : Except (SyncError Body) State := do
  let restored ← restoreForRecovery ledger db base
  let immutableBlocks ← liftStorage (db.immutable.suffixAfter (ledger.tip restored))
  let middle ← replayEach ledger (ledger.beginReplay tracked restored) immutableBlocks
  let volatileBlocks ← liftStorage (volatileSuffixAfter db.volatile
    (ChainDb.replayAnchor immutableBlocks (ledger.tip restored)))
  let final ← replayEach ledger middle volatileBlocks
  if ledger.tip final ≠ db.tip then
    .error (.tipMismatch (ledger.tip final) db.tip)
  else
    return final

/-- Write or clear checkpoints after the ledger has advanced. -/
def persistAfterProgress (rolledBack : Bool) : ChainDb Body Data × LedgerCheckpointTracking State :=
  let current := ledger.tip tracking.ledgerState
  -- `truncate_after(None)` clears the snapshot store.
  if policy.maxSnapshots = 0 ∨ current = .origin then
    ({ db with ledger := db.ledger.truncateAfter none },
      { tracking with lastPersistedPoint := .origin })
  else if policy.shouldPersist tracking.lastPersistedPoint current rolledBack then
    (db.persistLedgerCheckpoint current (ledger.encode tracking.ledgerState) policy.maxSnapshots,
      { tracking with lastPersistedPoint := current })
  else
    (db, tracking)

/-- A fresh session confirms the origin by a rollback to it; the ledger then starts from the
base state and takes the blocks of the progress. -/
def initialSyncRollbackToOrigin : Bool :=
  progress.rollbackPoints.head? = some .origin && ledger.tip tracking.baseLedgerState = .origin

/-- The last point of the progress that is rolled back to. -/
def lastRollbackPoint : Point := progress.rollbackPoints.getLastD progress.currentPoint

/-- Advance by all blocks of the progress. -/
def advanceLedgerWithProgress (ledger : SyncLedger State Body Data) (state : State)
    (progress : MultiEraSyncProgress Body) : Except (SyncError Body) Unit × State :=
  advanceEach ledger (ledger.beginBatch state) progress.forwardBlocks

/-- After a rollback to the origin in a fresh session: start from the base state and advance. -/
def restartFromBase : Except (SyncError Body) Unit × State :=
  let state := ledger.resetToBase tracking.ledgerState tracking.baseLedgerState
  match ledger.restoreChainDep db (lastRollbackPoint progress) with
  | .error reason => (.error (.chainDep reason), state)
  | .ok () => advanceLedgerWithProgress ledger state progress

/-- After any other rollback: rebuild the state from the stores. -/
def recoverAfterRollback : Except (SyncError Body) Unit × State :=
  match recoverLedgerStateChaindb ledger db tracking.ledgerState tracking.baseLedgerState with
  -- A failed recovery leaves the ledger state from before the rollback in place.
  | .error reason => (.error reason, tracking.ledgerState)
  | .ok recovered =>
    let state := ledger.afterRecovery recovered
    match ledger.restoreChainDep db (lastRollbackPoint progress) with
    | .error reason => (.error (.chainDep reason), state)
    | .ok () => (.ok (), state)

/-- Move the ledger state: by the blocks of the progress, or after a rollback by one of the two
ways above. -/
def moveLedger : Except (SyncError Body) Unit × State :=
  if progress.rollbackCount = 0 then
    advanceLedgerWithProgress ledger tracking.ledgerState progress
  else
    match ledger.truncateChainDep (lastRollbackPoint progress) with
    | .error reason => (.error (.chainDep reason), tracking.ledgerState)
    | .ok () =>
      if initialSyncRollbackToOrigin ledger tracking progress then
        restartFromBase ledger db tracking progress
      else
        recoverAfterRollback ledger db tracking progress

/-- After a rollback the snapshots beyond it go first. -/
def truncateForRollback : ChainDb Body Data :=
  if progress.rollbackCount = 0 then db
  else db.truncateLedgerCheckpointsAfterPoint (lastRollbackPoint progress)

def updateLedgerCheckpointAfterProgress :
    Except (SyncError Body) Unit × ChainDb Body Data × LedgerCheckpointTracking State :=
  let db := truncateForRollback db progress
  match moveLedger ledger db tracking progress with
  | (.error reason, state) => (.error reason, db, { tracking with ledgerState := state })
  | (.ok (), state) =>
    let (db, tracking) := persistAfterProgress ledger policy db
      { tracking with ledgerState := state } (decide (progress.rollbackCount ≠ 0))
    (.ok (), db, tracking)

/-! ## The whole call -/

/-- The stores after the first two phases, which know nothing of the ledger. -/
def settleStores (window : Option ChainState) (steps : List (SyncStep Body)) :
    Except (SyncError Body) Unit × ChainDb Body Data × Option ChainState :=
  match applyStepsToVolatile db.volatile steps with
  | (.error reason, volatile) => (.error (.storage reason), { db with volatile }, window)
  | (.ok (), volatile) => trackWindow ledger { db with volatile } steps window

def applyVerifiedProgressToChaindb (ledger : SyncLedger State Body Data)
    (policy : LedgerCheckpointPolicy) (state : SyncState State Body Data)
    (progress : MultiEraSyncProgress Body) :
    Except (SyncError Body) Unit × SyncState State Body Data :=
  match settleStores ledger state.db state.window progress.steps with
  | (.error reason, db, window) => (.error reason, { state with db, window })
  | (.ok (), db, window) =>
    match state.tracking with
    | none => (.ok (), { state with db, window })
    | some tracking =>
      let (outcome, db, tracking) :=
        updateLedgerCheckpointAfterProgress ledger policy db tracking progress
      (outcome, { db, window, tracking := some tracking })

end Yggdrasil.Node.Sync
