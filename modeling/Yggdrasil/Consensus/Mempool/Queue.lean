import Yggdrasil.Ledger.Fees

/-!
# The mempool queue

`Mempool` of `crates/consensus/src/mempool/queue/inner.rs`: insertion with eviction of the
lowest-fee tail, the removals, and the snapshot that lists the entries by their index.  Sizes are
64-bit words in the source; their one checked addition is kept.  An index is a 64-bit signed word,
whose successor wraps.

An entry's `payload` stands for its era, body and bytes; what the checks read of them (the size
of the body and the execution units of the decoded transaction) are fields of their own.
-/

namespace Yggdrasil.Consensus.Mempool

open Ledger Library

/-- Why an entry is not admitted. -/
inductive MempoolError where
  | duplicate (txId : TxId)
  | capacityExceeded (current incoming limit : Nat)
  | evictionInsufficientSpace (incoming limit freeable : Nat)
  | evictionNotWorthwhile (incomingFee evictedFee : UInt64)
  | ttlExpired (ttl currentSlot : SlotNo)
  | feeTooSmall (minimum declared : UInt64)
  | txTooLarge (actual max : Nat)
  | exUnitsExceedTxLimit (txMem txSteps maxMem maxSteps : UInt64)
  | protocolParamValidation (reason : Failure)
  | conflictingInputs (txId : TxId)
deriving DecidableEq, Repr

/-- A transaction in the mempool. -/
structure MempoolEntry (Payload : Type) where
  txId : TxId
  fee : UInt64
  bodySize : Nat
  sizeBytes : Nat
  ttl : SlotNo
  inputs : List ShelleyTxIn
  totalExUnits : Option ExUnits
  payload : Payload

/-- An entry with the index it was given. -/
structure IndexedMempoolEntry (Payload : Type) where
  idx : Int
  entry : MempoolEntry Payload

/-- The queue.  A capacity of 0 means no limit. -/
structure Queue (Payload : Type) where
  entries : List (IndexedMempoolEntry Payload)
  maxBytes : Nat
  currentBytes : Nat
  nextIdx : Int
  claimedInputs : KeyedMap ShelleyTxIn TxId
  txIds : Finset TxId

variable {Payload : Type}

/-- The larger fee comes first. -/
def FeeOrder (left right : MempoolEntry Payload) : Prop := right.fee ≤ left.fee

instance : DecidableRel (α := MempoolEntry Payload) FeeOrder := fun left right =>
  inferInstanceAs (Decidable (right.fee ≤ left.fee))

namespace Queue

def withCapacity (maxBytes : Nat) : Queue Payload where
  entries := []
  maxBytes := maxBytes
  currentBytes := 0
  nextIdx := 0
  claimedInputs := ∅
  txIds := ∅

/-! ## Insertion -/

variable (queue : Queue Payload) (entry : MempoolEntry Payload) (currentSlot : SlotNo)

/-- The transaction that claims one of the inputs, for the first input claimed at all. -/
def conflict : Option TxId := entry.inputs.findSome? queue.claimedInputs.lookup

/-- An entry with the next index. -/
def nextEntry : IndexedMempoolEntry Payload where
  idx := queue.nextIdx
  entry := entry

/-- The successor of an index, an `i64`. -/
def succIdx (idx : Int) : Int := Int.bmod (idx + 1) (2 ^ 64)

/-- Put an entry into the queue and sort by fee; the sort is stable. -/
def push (bytes : Nat) : Queue Payload where
  entries := (queue.entries ++ [queue.nextEntry entry]).insertionSort fun left right =>
    FeeOrder left.entry right.entry
  maxBytes := queue.maxBytes
  currentBytes := bytes
  nextIdx := succIdx queue.nextIdx
  claimedInputs := entry.inputs.foldl (fun claimed input => claimed.insert input entry.txId)
    queue.claimedInputs
  txIds := insert entry.txId queue.txIds

/-- `checked_add` on the sizes. -/
def nextBytes : Except MempoolError Nat :=
  if queue.currentBytes + entry.sizeBytes < 2 ^ 64 then
    .ok (queue.currentBytes + entry.sizeBytes)
  else
    .error (.capacityExceeded queue.currentBytes entry.sizeBytes queue.maxBytes)

/-- The checks that come first in both ways of inserting. -/
def checkFresh : Except MempoolError Unit :=
  if entry.txId ∈ queue.txIds then .error (.duplicate entry.txId)
  else match queue.conflict entry with
    | some txId => .error (.conflictingInputs txId)
    | none => .ok ()

def insert : Except MempoolError (Queue Payload) := do
  queue.checkFresh entry
  let bytes ← queue.nextBytes entry
  if 0 < queue.maxBytes ∧ queue.maxBytes < bytes then
    .error (.capacityExceeded queue.currentBytes entry.sizeBytes queue.maxBytes)
  else
    return queue.push entry bytes

/-! ## Eviction -/

/-- The tail that would go: how many entries, their bytes and their fees. -/
structure EvictionPlan where
  count : Nat
  freeableBytes : Nat
  evictedFee : UInt64
deriving DecidableEq, Repr

/-- Walk the entries from the lowest fee until enough is freed or a fee is no longer lower. -/
def planEviction (fee : UInt64) (needed : Nat) (plan : EvictionPlan) :
    List (IndexedMempoolEntry Payload) → EvictionPlan
  | [] => plan
  | indexed :: rest =>
    -- An entry that pays as much as the newcomer is never displaced.
    if fee ≤ indexed.entry.fee then plan
    else
      let next : EvictionPlan := {
        count := plan.count + 1
        freeableBytes := min (plan.freeableBytes + indexed.entry.sizeBytes) (2 ^ 64 - 1)
        evictedFee := saturatingAdd plan.evictedFee indexed.entry.fee }
      if needed ≤ next.freeableBytes then next else planEviction fee needed next rest

/-- Take one entry out of the bookkeeping. -/
def forget : Queue Payload :=
  { queue with
    currentBytes := queue.currentBytes - entry.sizeBytes
    txIds := queue.txIds.erase entry.txId
    claimedInputs := KeyedMap.eraseAll entry.inputs queue.claimedInputs }

/-- Remove the last `count` entries, from the end; the result lists their ids in that order. -/
def evictTail (count : Nat) : List TxId × Queue Payload :=
  let kept := queue.entries.take (queue.entries.length - count)
  let removed := (queue.entries.drop (queue.entries.length - count)).reverse
  (removed.map fun indexed => indexed.entry.txId,
    removed.foldl (fun queue indexed => queue.forget indexed.entry) { queue with entries := kept })

/-- The checks of `insert_with_eviction`, and how many entries have to go. -/
def tailToEvict : Except MempoolError Nat := do
  queue.checkFresh entry
  let projected ← queue.nextBytes entry
  let needed := queue.currentBytes + entry.sizeBytes - queue.maxBytes
  let plan := planEviction entry.fee needed ⟨0, 0, 0⟩ queue.entries.reverse
  if queue.maxBytes = 0 ∨ projected ≤ queue.maxBytes then .ok 0
  else if queue.maxBytes < entry.sizeBytes then
    .error (.evictionInsufficientSpace entry.sizeBytes queue.maxBytes 0)
  else if plan.freeableBytes < needed then
    .error (.evictionInsufficientSpace entry.sizeBytes queue.maxBytes plan.freeableBytes)
  -- The newcomer has to pay more than all the entries it displaces together.
  else if entry.fee ≤ plan.evictedFee then
    .error (.evictionNotWorthwhile entry.fee plan.evictedFee)
  else .ok plan.count

/-- The answer of `insert_with_eviction` and the queue it leaves. -/
def insertWithEvictionInPlace : Except MempoolError (List TxId) × Queue Payload :=
  match queue.tailToEvict entry with
  | .error reason => (.error reason, queue)
  | .ok count =>
    -- From here on the displaced entries are gone; `insert` repeats the checks.
    match (queue.evictTail count).2.insert entry with
    | .error reason => (.error reason, (queue.evictTail count).2)
    | .ok next => (.ok (queue.evictTail count).1, next)

/-! ## Removal -/

/-- `-=` on a byte count: it wraps. -/
def wrappingSub (a b : Nat) : Nat := (a + (2 ^ 64 - b % 2 ^ 64)) % 2 ^ 64

/-- The bookkeeping of every removal outside eviction. -/
def release : Queue Payload :=
  { queue.forget entry with
    currentBytes := wrappingSub queue.currentBytes entry.sizeBytes }

def popBest : Option (MempoolEntry Payload) × Queue Payload :=
  match queue.entries with
  | [] => (none, queue)
  | first :: rest => (some first.entry, { queue.release first.entry with entries := rest })

def removeById (txId : TxId) : Bool × Queue Payload :=
  if txId ∈ queue.txIds then
    match queue.entries.dropWhile fun indexed => indexed.entry.txId ≠ txId with
    | found :: back =>
      (true, { queue.release found.entry with
        entries := (queue.entries.takeWhile fun indexed => indexed.entry.txId ≠ txId) ++ back })
    -- The index lists an id that no entry has: it is taken out.
    | [] => (false, { queue with txIds := queue.txIds.erase txId })
  else (false, queue)

/-- The loop of the removals that look at every entry: `invalid` says whether to remove an entry
and carries the state of the caller's check along; `kept` are the entries passed so far. -/
def sweepLoop {Context : Type} (invalid : Context → MempoolEntry Payload → Bool × Context) :
    Context → List (IndexedMempoolEntry Payload) → List (IndexedMempoolEntry Payload) →
      Queue Payload → Nat × Queue Payload
  | _, kept, [], queue => (0, { queue with entries := kept })
  | context, kept, indexed :: rest, queue =>
    let checked := invalid context indexed.entry
    if checked.1 then
      let swept := sweepLoop invalid checked.2 kept rest (queue.release indexed.entry)
      (swept.1 + 1, swept.2)
    else sweepLoop invalid checked.2 (kept ++ [indexed]) rest queue

def sweep {Context : Type} (invalid : Context → MempoolEntry Payload → Bool × Context)
    (context : Context) (queue : Queue Payload) : Nat × Queue Payload :=
  sweepLoop invalid context [] queue.entries queue

/-- A removal by a property of the entry alone. -/
def removeWhere (invalid : MempoolEntry Payload → Bool) (queue : Queue Payload) :
    Nat × Queue Payload :=
  sweep (fun _ entry => (invalid entry, ())) () queue

def removeConfirmed (confirmed : List TxId) : Nat × Queue Payload :=
  queue.removeWhere fun entry => confirmed.contains entry.txId

def removeConflictingInputs (consumed : List ShelleyTxIn) : Nat × Queue Payload :=
  if consumed = [] then (0, queue)
  else queue.removeWhere fun entry => entry.inputs.any consumed.contains

def purgeExpired : Nat × Queue Payload := queue.removeWhere fun entry => entry.ttl < currentSlot

def revalidate (availableInputs : Finset ShelleyTxIn) : Nat × Queue Payload :=
  queue.removeWhere fun entry =>
    entry.ttl < currentSlot || entry.inputs.any fun input => input ∉ availableInputs

def purgeInvalidForParams (params : ProtocolParameters) : Nat × Queue Payload :=
  queue.removeWhere fun entry =>
    entry.ttl < currentSlot ||
      !(validateTxSize params entry.bodySize).isOk ||
      entry.totalExUnits.any (fun units => !(validateTxExUnits params units).isOk) ||
      !(validateFee params entry.bodySize entry.totalExUnits entry.fee).isOk

/-- `validate` is a callback with state of its own. -/
def revalidateWithLedger {Context : Type}
    (validate : Context → MempoolEntry Payload → Bool × Context) (context : Context)
    (queue : Queue Payload) : Nat × Queue Payload :=
  queue.sweep (fun context entry =>
    let validated := validate context entry
    (!validated.1, validated.2)) context

/-! ## Snapshot -/

/-- The index before the first one. -/
def mempoolZeroIdx : Int := -1

/-- Ids, indexes and sizes of the entries after an index, oldest first. -/
def mempoolTxidsAfter (idx : Int) : List (TxId × Int × Nat) :=
  ((queue.entries.filter fun indexed => idx < indexed.idx).map fun indexed =>
    (indexed.entry.txId, indexed.idx, indexed.entry.sizeBytes)).insertionSort fun left right =>
      left.2.1 ≤ right.2.1

/-! ## Indexes and insertions -/

theorem succIdx_of_lt {idx : Int} (hlow : -(2 ^ 63) ≤ idx) (hhigh : idx + 1 < 2 ^ 63) :
    succIdx idx = idx + 1 := by
  refine Int.bmod_eq_of_le ?_ ?_
  · omega
  · omega

variable {queue : Queue Payload} {entry : MempoolEntry Payload}

theorem nextBytes_eq_ok {bytes : Nat} (hnext : queue.nextBytes entry = .ok bytes) :
    queue.currentBytes + entry.sizeBytes < 2 ^ 64 ∧
      bytes = queue.currentBytes + entry.sizeBytes := by
  unfold nextBytes at hnext
  split at hnext
  · rename_i hword
    cases hnext
    exact ⟨hword, rfl⟩
  · cases hnext

/-- What a successful insertion has checked. -/
theorem insert_spec {queue next : Queue Payload} (hinsert : queue.insert entry = .ok next) :
    queue.checkFresh entry = .ok () ∧ queue.currentBytes + entry.sizeBytes < 2 ^ 64 ∧
      (0 < queue.maxBytes → queue.currentBytes + entry.sizeBytes ≤ queue.maxBytes) ∧
      next = queue.push entry (queue.currentBytes + entry.sizeBytes) := by
  unfold insert at hinsert
  simp only [bind_eq_ok] at hinsert
  obtain ⟨⟨⟩, hfresh, bytes, hnext, hpush⟩ := hinsert
  obtain ⟨hword, rfl⟩ := nextBytes_eq_ok hnext
  split at hpush
  · cases hpush
  · cases hpush
    exact ⟨hfresh, hword, by omega, rfl⟩

end Queue

end Yggdrasil.Consensus.Mempool
