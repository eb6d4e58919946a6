import Yggdrasil.Ledger.Types

/-!
# The in-memory stores

`InMemoryImmutable`, `InMemoryVolatile` and `InMemoryLedgerStore` of
`crates/storage/src/{immutable_db,volatile_db,ledger_db}.rs`.  A store of blocks is the list of its
blocks in insertion order.  A snapshot's bytes are opaque to the store and are an arbitrary type
`Data`.  The snapshot version tags are left out.
-/

namespace Yggdrasil.Storage

open Ledger

/-- What the storage layer reports.  A recovery error keeps the facts its message prints;
the operating system's error is left out. -/
inductive StorageError where
  | duplicateBlock (hash : HeaderHash)
  | pointNotFound
  | recoveryApply (message : String)
  | recoveryTipMismatch (recovered best : Point)
  | io
deriving DecidableEq, Repr

variable {Body Data : Type}

/-- A block with the given header hash. -/
def hasHash (hash : HeaderHash) (block : Block Body) : Bool := block.header.hash == hash

/-- The point of the last block, or the origin. -/
def tipOf (blocks : List (Block Body)) : Point :=
  match blocks.getLast? with
  | some block => block.point
  | none => .origin

/-! ## Immutable store -/

/-- The finalized blocks. -/
structure InMemoryImmutable (Body : Type) where
  blocks : List (Block Body)

namespace InMemoryImmutable

variable (store : InMemoryImmutable Body)

def appendBlock (block : Block Body) : Except StorageError (InMemoryImmutable Body) :=
  if store.blocks.any (hasHash block.header.hash) then
    .error (.duplicateBlock block.header.hash)
  else .ok { blocks := store.blocks ++ [block] }

def getTip : Point := tipOf store.blocks

def getBlock (hash : HeaderHash) : Option (Block Body) := store.blocks.find? (hasHash hash)

def containsBlock (hash : HeaderHash) : Bool := store.blocks.any (hasHash hash)

/-- Index of the first block after `point`.  A point before the first block means the whole
chain, one after the last block nothing, and an unknown point in between is an error. -/
def resolveSuffixStart (point : Point) : Except StorageError Nat :=
  match point with
  | .origin => .ok 0
  | .blockPoint slot hash =>
    match store.blocks.head?, store.blocks.getLast? with
    | some first, some last =>
      if slot < first.header.slotNo then .ok 0
      else match store.blocks.findIdx? (hasHash hash) with
        | some position => .ok (position + 1)
        | none =>
          if slot > last.header.slotNo then .ok store.blocks.length
          else .error .pointNotFound
    | _, _ => .ok 0

def suffixAfter (point : Point) : Except StorageError (List (Block Body)) :=
  (store.resolveSuffixStart point).map store.blocks.drop

/-- The blocks of `suffixAfter`, one at a time. -/
def iterAfter (point : Point) : Except StorageError (List (Block Body)) :=
  (store.resolveSuffixStart point).map store.blocks.drop

def len : Nat := store.blocks.length

def isEmpty : Bool := store.len == 0

def getBlockBySlot (slot : SlotNo) : Option (Block Body) :=
  store.blocks.find? fun block => block.header.slotNo == slot

/-- Keep the blocks at a slot or after it, and count the others. -/
def trimBeforeSlot (slot : SlotNo) : Nat × InMemoryImmutable Body :=
  let kept := store.blocks.filter fun block => decide (block.header.slotNo ≥ slot)
  (store.blocks.length - kept.length, { blocks := kept })

/-- Keep the blocks at a slot or before it, and count the others. -/
def trimAfterSlot (slot : SlotNo) : Nat × InMemoryImmutable Body :=
  let kept := store.blocks.filter fun block => decide (block.header.slotNo ≤ slot)
  (store.blocks.length - kept.length, { blocks := kept })

end InMemoryImmutable

/-! ## Volatile store -/

/-- The blocks that may still be rolled back. -/
structure InMemoryVolatile (Body : Type) where
  blocks : List (Block Body)

namespace InMemoryVolatile

variable (store : InMemoryVolatile Body) (point : Point)

def addBlock (block : Block Body) : Except StorageError (InMemoryVolatile Body) :=
  if store.blocks.any (hasHash block.header.hash) then
    .error (.duplicateBlock block.header.hash)
  else .ok { blocks := store.blocks ++ [block] }

def getBlock (hash : HeaderHash) : Option (Block Body) := store.blocks.find? (hasHash hash)

/-- The blocks up to and including `point`. -/
def prefixUpTo : Except StorageError (List (Block Body)) :=
  match point with
  | .origin => .ok []
  | .blockPoint _ hash =>
    match store.blocks.findIdx? (hasHash hash) with
    | some position => .ok (store.blocks.take (position + 1))
    | none => .error .pointNotFound

/-- Drop the blocks up to and including `point`. -/
def pruneUpTo : Except StorageError (InMemoryVolatile Body) :=
  match point with
  | .origin => .ok store
  | .blockPoint _ hash =>
    match store.blocks.findIdx? (hasHash hash) with
    | some position => .ok { blocks := store.blocks.drop (position + 1) }
    | none => .error .pointNotFound

/-- Drop the blocks after `point`; an unknown point changes nothing. -/
def rollbackTo : InMemoryVolatile Body :=
  match point with
  | .origin => { blocks := [] }
  | .blockPoint _ hash =>
    match store.blocks.findIdx? (hasHash hash) with
    | some position => { blocks := store.blocks.take (position + 1) }
    | none => store

def tip : Point := tipOf store.blocks

/-- The blocks after `point`, or none if the point is unknown. -/
def suffixAfter : List (Block Body) :=
  match point with
  | .origin => store.blocks
  | .blockPoint _ hash =>
    match store.blocks.findIdx? (hasHash hash) with
    | some position =>
      if position + 1 < store.blocks.length then store.blocks.drop (position + 1) else []
    | none => []

/-- Keep the blocks at a slot or after it, and count the others. -/
def garbageCollect (slot : SlotNo) : Nat × InMemoryVolatile Body :=
  let kept := store.blocks.filter fun block => decide (block.header.slotNo ≥ slot)
  (store.blocks.length - kept.length, { blocks := kept })

def blockCount : Nat := store.blocks.length

end InMemoryVolatile

/-! ## Ledger snapshot store -/

/-- Snapshots with the slot they were taken at. -/
structure InMemoryLedgerStore (Data : Type) where
  snapshots : List (SlotNo × Data)

namespace InMemoryLedgerStore

/-- Replace the data of the first snapshot at the slot. -/
def overwrite (slot : SlotNo) (data : Data) : List (SlotNo × Data) → List (SlotNo × Data)
  | [] => []
  | snapshot :: rest =>
    if snapshot.1 = slot then (snapshot.1, data) :: rest
    else snapshot :: overwrite slot data rest

variable (store : InMemoryLedgerStore Data)

/-- Replace the snapshot at the slot, or add one and sort by slot. -/
def saveSnapshot (slot : SlotNo) (data : Data) : InMemoryLedgerStore Data :=
  if store.snapshots.any fun snapshot => snapshot.1 == slot then
    { snapshots := overwrite slot data store.snapshots }
  else
    { snapshots := (store.snapshots ++ [(slot, data)]).mergeSort fun a b => decide (a.1 ≤ b.1) }

def latestSnapshot : Option (SlotNo × Data) := store.snapshots.getLast?

def latestSnapshotBeforeOrAt (slot : SlotNo) : Option (SlotNo × Data) :=
  store.snapshots.reverse.find? fun snapshot => snapshot.1 ≤ slot

/-- Delete the snapshots after the slot, or all of them. -/
def truncateAfter (slot : Option SlotNo) : InMemoryLedgerStore Data :=
  match slot with
  | some slot => { snapshots := store.snapshots.filter fun snapshot => snapshot.1 ≤ slot }
  | none => { snapshots := [] }

/-- Keep only the newest snapshots. -/
def retainLatest (maxSnapshots : Nat) : InMemoryLedgerStore Data :=
  if maxSnapshots = 0 then { snapshots := [] }
  else if store.snapshots.length > maxSnapshots then
    { snapshots := store.snapshots.drop (store.snapshots.length - maxSnapshots) }
  else store

/-! ### Which snapshots an operation can leave -/

variable {store : InMemoryLedgerStore Data} {snapshot : SlotNo × Data}

variable {slot : SlotNo}

theorem mem_overwrite {data : Data} {snapshots : List (SlotNo × Data)}
    (hmem : snapshot ∈ overwrite slot data snapshots) :
    snapshot = (slot, data) ∨ snapshot ∈ snapshots := by
  induction snapshots with
  | nil => exact absurd hmem List.not_mem_nil
  | cons first rest ih =>
    unfold overwrite at hmem
    split at hmem
    · rename_i hslot
      rcases List.mem_cons.mp hmem with rfl | hrest
      · exact .inl (by rw [hslot])
      · exact .inr (List.mem_cons_of_mem _ hrest)
    · rcases List.mem_cons.mp hmem with rfl | hrest
      · exact .inr List.mem_cons_self
      · exact (ih hrest).imp_right (List.mem_cons_of_mem _)

theorem mem_saveSnapshot {slot : SlotNo} {data : Data}
    (hmem : snapshot ∈ (store.saveSnapshot slot data).snapshots) :
    snapshot = (slot, data) ∨ snapshot ∈ store.snapshots := by
  unfold saveSnapshot at hmem
  split at hmem
  · exact mem_overwrite hmem
  · rw [List.mem_mergeSort, List.mem_append, List.mem_singleton] at hmem
    exact hmem.symm

theorem mem_retainLatest {maxSnapshots : Nat}
    (hmem : snapshot ∈ (store.retainLatest maxSnapshots).snapshots) :
    snapshot ∈ store.snapshots := by
  unfold retainLatest at hmem
  split at hmem
  · exact absurd hmem List.not_mem_nil
  · split at hmem
    · exact List.mem_of_mem_drop hmem
    · exact hmem

theorem mem_of_latestSnapshotBeforeOrAt
    (hfound : store.latestSnapshotBeforeOrAt slot = some snapshot) :
    snapshot ∈ store.snapshots ∧ snapshot.1 ≤ slot := by
  exact ⟨List.mem_reverse.mp (List.mem_of_find?_eq_some hfound), by
    simpa using List.find?_some hfound⟩

/-- The search goes on below the slot of a snapshot. -/
theorem pred_lt_of_latestSnapshotBeforeOrAt
    (hfound : store.latestSnapshotBeforeOrAt slot = some snapshot) (hpositive : snapshot.1 ≠ 0) :
    (snapshot.1 - 1).toNat < slot.toNat := by
  have hle := (mem_of_latestSnapshotBeforeOrAt hfound).2
  have hpos : 0 < snapshot.1.toNat :=
    pos_of_ne_zero fun hzero => hpositive (UInt64.toNat_inj.mp hzero)
  have hone : 1 ≤ snapshot.1 := hpos
  rw [UInt64.toNat_sub_of_le _ _ hone]
  exact (Nat.sub_lt hpos Nat.one_pos).trans_le hle

end InMemoryLedgerStore

end Yggdrasil.Storage
