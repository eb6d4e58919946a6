import Yggdrasil.Storage.Stores

/-!
# The coordinated chain database

`ChainDb` of `crates/storage/src/chain_db.rs` over the in-memory stores: choosing the tip, adding and
rolling back blocks, promoting a stable prefix to the immutable store, and rebuilding the ledger
state from the latest decodable snapshot.  The ledger itself is a parameter (`LedgerOps`).
-/

namespace Yggdrasil.Storage

open Ledger

/-- The ledger functions that storage calls.  `decode` is the checkpoint decoder followed by
`restore`, and `rehydrate` fills a restored state's genesis-derived fields from the base state. -/
structure LedgerOps (State Body Data : Type) where
  applyBlock : State → Block Body → Except String State
  tip : State → Point
  encode : State → Data
  decode : Data → Option State
  rehydrate : (restored base : State) → State

namespace LedgerOps

variable {State Body Data : Type} (ops : LedgerOps State Body Data)

/-- Apply blocks from left to right. -/
def replay (state : State) (blocks : List (Block Body)) : Except String State :=
  blocks.foldlM ops.applyBlock state

end LedgerOps

structure ChainDb (Body Data : Type) where
  immutable : InMemoryImmutable Body
  volatile : InMemoryVolatile Body
  ledger : InMemoryLedgerStore Data

/-- What recovery reports. -/
structure LedgerRecoveryOutcome (State : Type) where
  ledgerState : State
  point : Point
  checkpointSlot : Option SlotNo
  replayedVolatileBlocks : Nat

/-- The volatile blocks after a point, or all of them when the point is not volatile. -/
def volatileSuffixAfter {Body : Type} (volatile : InMemoryVolatile Body) (anchor : Point) :
    Except StorageError (List (Block Body)) :=
  if volatile.tip = .origin then .ok []
  else do
    let blocks ← volatile.prefixUpTo volatile.tip
    if anchor = .origin then return blocks
    else match blocks.findIdx? fun block => block.point == anchor with
      | some position => return blocks.drop (position + 1)
      | none => return blocks

namespace ChainDb

variable {State Body Data : Type}

def empty : ChainDb Body Data where
  immutable := { blocks := [] }
  volatile := { blocks := [] }
  ledger := { snapshots := [] }

/-- The volatile tip, or the immutable one when there are no volatile blocks. -/
def tip (db : ChainDb Body Data) : Point :=
  if db.volatile.tip = .origin then db.immutable.getTip else db.volatile.tip

def addVolatileBlock (db : ChainDb Body Data) (block : Block Body) :
    Except StorageError (ChainDb Body Data) := do
  return { db with volatile := ← db.volatile.addBlock block }

def saveLedgerSnapshot (db : ChainDb Body Data) (slot : SlotNo) (data : Data) : ChainDb Body Data :=
  { db with ledger := db.ledger.saveSnapshot slot data }

/-- Save a checkpoint at a point and keep the newest `maxSnapshots`.  At the origin all
snapshots are cleared instead. -/
def persistLedgerCheckpoint (db : ChainDb Body Data) (point : Point) (checkpoint : Data)
    (maxSnapshots : Nat) : ChainDb Body Data :=
  match point with
  | .origin => { db with ledger := db.ledger.truncateAfter none }
  | .blockPoint slot _ =>
    { db with ledger := (db.ledger.saveSnapshot slot checkpoint).retainLatest maxSnapshots }

/-- Truncate the snapshots newer than a point. -/
def truncateLedgerCheckpointsAfterPoint (db : ChainDb Body Data) (point : Point) :
    ChainDb Body Data :=
  { db with ledger := db.ledger.truncateAfter point.slot }

/-- Roll the volatile suffix back to a point and drop newer snapshots.  A point that is already
immutable drops the whole volatile suffix. -/
def rollbackTo (db : ChainDb Body Data) (point : Point) : Except StorageError (ChainDb Body Data) :=
  match point with
  | .origin =>
    .ok (truncateLedgerCheckpointsAfterPoint
      { db with volatile := db.volatile.rollbackTo .origin } .origin)
  | .blockPoint slot hash =>
    if (db.volatile.getBlock hash).isSome then
      .ok (truncateLedgerCheckpointsAfterPoint
        { db with volatile := db.volatile.rollbackTo (.blockPoint slot hash) }
        (.blockPoint slot hash))
    else if (db.immutable.getBlock hash).isSome then
      .ok (truncateLedgerCheckpointsAfterPoint
        { db with volatile := db.volatile.rollbackTo .origin } (.blockPoint slot hash))
    else .error .pointNotFound

/-- The append loop of a promotion: blocks that are already immutable are skipped.  An append
error ends the loop with what was appended before it. -/
def appendMissing (immutable : InMemoryImmutable Body) :
    List (Block Body) → Except StorageError Unit × InMemoryImmutable Body
  | [] => (.ok (), immutable)
  | block :: rest =>
    if immutable.containsBlock block.header.hash then appendMissing immutable rest
    else match immutable.appendBlock block with
      | .ok next => appendMissing next rest
      | .error reason => (.error reason, immutable)

/-- Copy the volatile blocks through a point to the immutable store, then prune them. -/
def promoteVolatilePrefix (db : ChainDb Body Data) (point : Point) :
    Except StorageError Nat × ChainDb Body Data :=
  match db.volatile.prefixUpTo point with
  | .error reason => (.error reason, db)
  | .ok blocks =>
    match appendMissing db.immutable blocks with
    | (.error reason, immutable) => (.error reason, { db with immutable })
    | (.ok (), immutable) =>
      match db.volatile.pruneUpTo point with
      | .error reason => (.error reason, { db with immutable })
      | .ok volatile => (.ok blocks.length, { db with immutable, volatile })

/-- A promotion that stops after `iterations` rounds of its append loop, before pruning. -/
def promoteInterrupted (db : ChainDb Body Data) (point : Point) (iterations : Nat) :
    ChainDb Body Data :=
  match db.volatile.prefixUpTo point with
  | .error _ => db
  | .ok blocks => { db with immutable := (appendMissing db.immutable (blocks.take iterations)).2 }

/-! ## Recovery -/

/-- The snapshot the restore loop looks at next. -/
def snapshotAtCursor (db : ChainDb Body Data) (cursor : Option SlotNo) : Option (SlotNo × Data) :=
  match cursor with
  | some slot => db.ledger.latestSnapshotBeforeOrAt slot
  | none => db.ledger.latestSnapshot

/-- How far down the restore loop still can go. -/
def cursorMeasure : Option SlotNo → Nat
  | some slot => slot.toNat
  | none => 2 ^ 64

theorem cursorMeasure_decreases {db : ChainDb Body Data} {cursor : Option SlotNo}
    {slot : SlotNo} {data : Data} (hfound : db.snapshotAtCursor cursor = some (slot, data))
    (hpositive : slot ≠ 0) : cursorMeasure (some (slot - 1)) < cursorMeasure cursor := by
  cases cursor with
  | none => exact UInt64.toNat_lt _
  | some limit => exact InMemoryLedgerStore.pred_lt_of_latestSnapshotBeforeOrAt hfound hpositive

/-- Restore the newest decodable snapshot at or below the cursor, or fall back to the base
state.  The result is the state, the slot of the snapshot used, and the point to replay from. -/
def tryRestoreCheckpoint (ops : LedgerOps State Body Data) (db : ChainDb Body Data) (base : State)
    (cursor : Option SlotNo) : State × Option SlotNo × Point :=
  match hfound : db.snapshotAtCursor cursor with
  | none => (base, none, ops.tip base)
  | some (slot, data) =>
    match ops.decode data with
    | some checkpoint =>
      let state := ops.rehydrate checkpoint base
      (state, some slot, ops.tip state)
    | none =>
      if hzero : slot = 0 then (base, none, ops.tip base)
      else tryRestoreCheckpoint ops db base (some (slot - 1))
termination_by cursorMeasure cursor
decreasing_by exact cursorMeasure_decreases hfound hzero

/-- Replay with a ledger error reported as a recovery error. -/
def replayForRecovery (ops : LedgerOps State Body Data) (state : State)
    (blocks : List (Block Body)) : Except StorageError State :=
  match ops.replay state blocks with
  | .ok next => .ok next
  | .error message => .error (.recoveryApply message)

/-- The point the volatile replay starts after: the last immutable block replayed, or the
restored point when there is none. -/
def replayAnchor (immutableBlocks : List (Block Body)) (replayFrom : Point) : Point :=
  match immutableBlocks.getLast? with
  | some block => block.point
  | none => replayFrom

/-- Restore a checkpoint, replay the immutable and then the volatile blocks after it, and check
that the result is at the tip. -/
def recoverLedgerState (ops : LedgerOps State Body Data) (db : ChainDb Body Data) (base : State) :
    Except StorageError (LedgerRecoveryOutcome State) := do
  let (restored, checkpointSlot, replayFrom) := db.tryRestoreCheckpoint ops base db.tip.slot
  let immutableBlocks ← db.immutable.suffixAfter replayFrom
  let middle ← replayForRecovery ops restored immutableBlocks
  let volatileBlocks ← volatileSuffixAfter db.volatile (replayAnchor immutableBlocks replayFrom)
  let final ← replayForRecovery ops middle volatileBlocks
  if ops.tip final ≠ db.tip then
    .error (.recoveryTipMismatch (ops.tip final) db.tip)
  else
    return {
      ledgerState := final
      point := ops.tip final
      checkpointSlot
      replayedVolatileBlocks := volatileBlocks.length }

end ChainDb

end Yggdrasil.Storage
