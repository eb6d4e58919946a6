import Yggdrasil.Consensus.Mempool.Queue
import Yggdrasil.Library.Runs

/-!
# The representation invariant of the mempool

The queue keeps its entries together with four values that can be computed from them: the byte
count, the set of ids, the table of claimed inputs and the order by fee.  Every operation updates
them by hand.  `Queue.Consistent` says that they agree with the entries and that the indexes are
in order; it is derived for whole runs from two facts, what one removal does (`Consistent.remove`)
and what one insertion does (`consistent_push_iff`).

The one thing an operation can get wrong is the index after the largest 64-bit one.
-/

namespace Yggdrasil.Consensus.Mempool

open Ledger Library

namespace Queue

variable {Payload : Type}

/-- The redundant parts of the queue agree with its entries. -/
structure Consistent (capacity : Nat) (queue : Queue Payload) : Prop where
  fees : queue.entries.Pairwise fun left right => right.entry.fee ≤ left.entry.fee
  indexes : (queue.entries.map IndexedMempoolEntry.idx).Nodup
  below : ∀ indexed ∈ queue.entries, indexed.idx < queue.nextIdx
  bytes : queue.currentBytes = (queue.entries.map fun indexed => indexed.entry.sizeBytes).sum
  maxBytes : queue.maxBytes = capacity
  capacity : 0 < capacity → queue.currentBytes ≤ capacity
  ids : (queue.entries.map fun indexed => indexed.entry.txId).Nodup
  members : ∀ txId, txId ∈ queue.txIds ↔ ∃ indexed ∈ queue.entries, indexed.entry.txId = txId
  inputs : queue.entries.Pairwise fun left right =>
    ∀ input ∈ left.entry.inputs, input ∉ right.entry.inputs
  claims : ∀ input txId, queue.claimedInputs.lookup input = some txId ↔
    ∃ indexed ∈ queue.entries, input ∈ indexed.entry.inputs ∧ indexed.entry.txId = txId

theorem consistent_withCapacity (capacity : Nat) :
    (withCapacity capacity : Queue Payload).Consistent capacity where
  fees := List.Pairwise.nil
  indexes := List.nodup_nil
  below := fun _ hmem => absurd hmem List.not_mem_nil
  bytes := rfl
  maxBytes := rfl
  capacity := fun _ => Nat.zero_le _
  ids := List.nodup_nil
  members := by simp [withCapacity]
  inputs := List.Pairwise.nil
  claims := by simp [withCapacity]

variable {kept rest : List (IndexedMempoolEntry Payload)} {removed : IndexedMempoolEntry Payload}
  {front back : List (IndexedMempoolEntry Payload)} {capacity : Nat} {entry : MempoolEntry Payload}
  {queue : Queue Payload}

variable {indexed : IndexedMempoolEntry Payload}

theorem Consistent.sizeBytes_le (hqueue : queue.Consistent capacity)
    (hmem : indexed ∈ queue.entries) :
    indexed.entry.sizeBytes ≤ queue.currentBytes := by
  rw [hqueue.bytes]
  exact List.single_le_sum (by simp) _ (List.mem_map.mpr ⟨indexed, hmem, rfl⟩)

/-- Some entry of a list is the one put first, or one of the others. -/
theorem exists_mem_of_perm {entries others : List (IndexedMempoolEntry Payload)}
    {first : IndexedMempoolEntry Payload} (hperm : entries.Perm (first :: others))
    {property : IndexedMempoolEntry Payload → Prop} :
    (∃ indexed ∈ entries, property indexed) ↔
      property first ∨ ∃ indexed ∈ others, property indexed := by
  simp [hperm.mem_iff]

/-! ## One removal -/

/-- Where a resident stands, the others have neither its id nor one of its inputs. -/
theorem Consistent.others (hqueue : queue.Consistent capacity)
    (hsplit : queue.entries = front ++ removed :: back) {other : IndexedMempoolEntry Payload}
    (hother : other ∈ front ++ back) :
    other.entry.txId ≠ removed.entry.txId ∧
      ∀ input ∈ removed.entry.inputs, input ∉ other.entry.inputs := by
  have hids := hqueue.ids
  have hinputs := hqueue.inputs
  rw [hsplit] at hids hinputs
  rw [List.map_append, List.nodup_append] at hids
  rw [List.pairwise_append, List.pairwise_cons] at hinputs
  rcases List.mem_append.mp hother with hfront | hback
  · refine ⟨?_, fun input hremoved hshared => ?_⟩
    · exact hids.2.2 _ (List.mem_map_of_mem hfront) _ List.mem_cons_self
    · exact hinputs.2.2 other hfront removed List.mem_cons_self input hshared hremoved
  · refine ⟨fun hsame => ?_, hinputs.2.1.1 other hback⟩
    exact (List.nodup_cons.mp hids.2.1).1 (List.mem_map.mpr ⟨other, hback, hsame⟩)

theorem Consistent.remove (hqueue : queue.Consistent capacity)
    (hsplit : queue.entries = front ++ removed :: back) :
    { queue.forget removed.entry with entries := front ++ back }.Consistent capacity := by
  have hsub : List.Sublist (front ++ back) queue.entries := by
    rw [hsplit]
    exact List.Sublist.append_left (List.sublist_cons_self removed back) front
  have hothers : ∀ other ∈ front ++ back, _ := fun other hother => hqueue.others hsplit hother
  have hperm := hsplit ▸ List.perm_middle
  have hbytes : queue.currentBytes - removed.entry.sizeBytes =
      ((front ++ back).map fun indexed => indexed.entry.sizeBytes).sum := by
    rw [hqueue.bytes, hsplit]
    simp only [List.map_append, List.map_cons, List.sum_append, List.sum_cons]
    omega
  exact
    { fees := hqueue.fees.sublist hsub
      indexes := hqueue.indexes.sublist (hsub.map _)
      below := fun indexed hindexed => hqueue.below indexed (hsub.subset hindexed)
      bytes := hbytes
      maxBytes := hqueue.maxBytes
      capacity := fun hset => (Nat.sub_le _ _).trans (hqueue.capacity hset)
      ids := hqueue.ids.sublist (hsub.map _)
      members := by
        intro txId
        change txId ∈ queue.txIds.erase removed.entry.txId ↔ _
        rw [Finset.mem_erase, hqueue.members, exists_mem_of_perm hperm]
        constructor
        · rintro ⟨hne, hgone | hkept⟩
          · exact absurd hgone.symm hne
          · exact hkept
        · rintro ⟨indexed, hkept, rfl⟩
          exact ⟨(hothers indexed hkept).1, .inr ⟨indexed, hkept, rfl⟩⟩
      inputs := hqueue.inputs.sublist hsub
      claims := by
        intro input txId
        change (KeyedMap.eraseAll removed.entry.inputs queue.claimedInputs).lookup input =
          some txId ↔ _
        rw [KeyedMap.lookup_eraseAll]
        by_cases hfreed : input ∈ removed.entry.inputs
        · -- the input was the removed entry's, and nobody else's
          rw [if_pos hfreed]
          refine iff_of_false (by simp) ?_
          rintro ⟨indexed, hkept, hinput, -⟩
          exact (hothers indexed hkept).2 input hfreed hinput
        · rw [if_neg hfreed, hqueue.claims, exists_mem_of_perm hperm]
          exact or_iff_right fun hgone => hfreed hgone.1 }

/-- The byte counts are words, so the wrapping subtraction of a resident's size is exact. -/
theorem wrappingSub_of_le {a b : Nat} (hword : a < 2 ^ 64) (hle : b ≤ a) :
    wrappingSub a b = a - b := by
  unfold wrappingSub
  omega

theorem release_eq_forget (hword : queue.currentBytes < 2 ^ 64)
    (hle : entry.sizeBytes ≤ queue.currentBytes) :
    queue.release entry = queue.forget entry := by
  unfold release
  rw [wrappingSub_of_le hword hle]
  rfl

theorem Consistent.remove_release (hqueue : queue.Consistent capacity)
    (hword : queue.currentBytes < 2 ^ 64) (hsplit : queue.entries = front ++ removed :: back) :
    { queue.release removed.entry with entries := front ++ back }.Consistent capacity := by
  have hmem : removed ∈ queue.entries := by
    rw [hsplit]
    exact List.mem_append_right _ List.mem_cons_self
  rw [release_eq_forget hword (hqueue.sizeBytes_le hmem)]
  exact hqueue.remove hsplit

/-! ## Eviction -/

/-- Forgetting the last entries one by one, from the end. -/
theorem consistent_foldl_forget {removed : List (IndexedMempoolEntry Payload)}
    (hqueue : { queue with entries := kept ++ removed.reverse }.Consistent capacity) :
    (removed.foldl (fun (queue : Queue Payload) indexed => queue.forget indexed.entry)
      { queue with entries := kept }).Consistent capacity := by
  induction removed generalizing queue with
  | nil =>
    rw [List.reverse_nil, List.append_nil] at hqueue
    exact hqueue
  | cons indexed rest ih =>
    have hsplit : kept ++ (indexed :: rest).reverse = (kept ++ rest.reverse) ++ indexed :: [] := by
      rw [List.reverse_cons, List.append_assoc]
    have hremoved := hqueue.remove hsplit
    rw [List.append_nil] at hremoved
    exact ih hremoved

theorem consistent_evictTail (hqueue : queue.Consistent capacity) (count : Nat) :
    (queue.evictTail count).2.Consistent capacity := by
  refine consistent_foldl_forget ?_
  rw [List.reverse_reverse, List.take_append_drop]
  exact hqueue

/-- Eviction leaves the front part of the entries and does not touch limits and indexes. -/
theorem evictTail_frame (queue : Queue Payload) (count : Nat) :
    (queue.evictTail count).2.entries = queue.entries.take (queue.entries.length - count) ∧
      (queue.evictTail count).2.nextIdx = queue.nextIdx ∧
      (queue.evictTail count).2.maxBytes = queue.maxBytes ∧
      (queue.evictTail count).2.currentBytes ≤ queue.currentBytes := by
  have hframe : ∀ (removed : List (IndexedMempoolEntry Payload)) (start : Queue Payload),
      (removed.foldl (fun queue indexed => Queue.forget queue indexed.entry) start).entries =
          start.entries ∧
        (removed.foldl (fun queue indexed => Queue.forget queue indexed.entry) start).nextIdx =
          start.nextIdx ∧
        (removed.foldl (fun queue indexed => Queue.forget queue indexed.entry) start).maxBytes =
          start.maxBytes ∧
        (removed.foldl (fun queue indexed => Queue.forget queue indexed.entry) start).currentBytes ≤
          start.currentBytes := by
    intro removed
    induction removed with
    | nil => exact fun _ => ⟨rfl, rfl, rfl, le_rfl⟩
    | cons indexed rest ih =>
      intro start
      obtain ⟨hentries, hnext, hmax, hbytes⟩ := ih (start.forget indexed.entry)
      exact ⟨hentries, hnext, hmax, hbytes.trans (Nat.sub_le _ _)⟩
  exact hframe _ _

/-! ## The removals -/

/-- What the removals do: entries are taken out one at a time, each with its bookkeeping.  An id
that no entry has may go as well, and an insertion that is refused late has evicted a tail. -/
inductive Removes : Queue Payload → Queue Payload → Prop where
  | nothing (queue : Queue Payload) : Removes queue queue
  | entry {queue next : Queue Payload} {front back : List (IndexedMempoolEntry Payload)}
      {removed : IndexedMempoolEntry Payload} (hsplit : queue.entries = front ++ removed :: back)
      (hlater : Removes { queue.release removed.entry with entries := front ++ back } next) :
      Removes queue next
  | stray {queue : Queue Payload} {txId : TxId}
      (hstray : ∀ indexed ∈ queue.entries, indexed.entry.txId ≠ txId) :
      Removes queue { queue with txIds := queue.txIds.erase txId }
  | tail (queue : Queue Payload) (count : Nat) : Removes queue (queue.evictTail count).2

variable {next : Queue Payload}

theorem Removes.consistent (hremoves : queue.Removes next) (hqueue : queue.Consistent capacity)
    (hword : queue.currentBytes < 2 ^ 64) : next.Consistent capacity := by
  induction hremoves with
  | nothing queue => exact hqueue
  | entry hsplit hlater ih =>
    exact ih (hqueue.remove_release hword hsplit) (Nat.mod_lt _ (by norm_num))
  | stray hstray =>
    -- the set of ids lists residents only
    rw [Finset.erase_eq_of_notMem]
    · exact hqueue
    · intro hmember
      obtain ⟨indexed, hmem, hid⟩ := (hqueue.members _).mp hmember
      exact hstray indexed hmem hid
  | tail queue count => exact consistent_evictTail hqueue count

theorem removes_popBest (queue : Queue Payload) : queue.Removes queue.popBest.2 := by
  unfold popBest
  split
  · exact .nothing queue
  · rename_i first rest hentries
    have hsplit : queue.entries = [] ++ first :: rest := hentries
    exact .entry hsplit (.nothing _)

theorem removes_removeById (queue : Queue Payload) (txId : TxId) :
    queue.Removes (queue.removeById txId).2 := by
  unfold removeById
  split
  · split
    · rename_i found back hdrop
      refine .entry ?_ (.nothing _)
      rw [← hdrop, List.takeWhile_append_dropWhile]
    · rename_i hdrop
      refine .stray fun indexed hmem => ?_
      simpa using List.dropWhile_eq_nil_iff.mp hdrop indexed hmem
  · exact .nothing queue

/-- The loop starts from the queue whose entries are those kept and those to come. -/
theorem removes_sweepLoop {Context : Type}
    (invalid : Context → MempoolEntry Payload → Bool × Context) (context : Context)
    (kept rest : List (IndexedMempoolEntry Payload)) (queue : Queue Payload) :
    Removes { queue with entries := kept ++ rest }
      (sweepLoop invalid context kept rest queue).2 := by
  induction rest generalizing context kept queue with
  | nil =>
    rw [List.append_nil]
    exact .nothing _
  | cons indexed rest ih =>
    unfold sweepLoop
    dsimp only
    split
    · exact .entry rfl (ih _ kept (queue.release _))
    · have hlater := ih (invalid context indexed.entry).2 (kept ++ [indexed]) queue
      rwa [List.append_assoc] at hlater

theorem removes_sweep {Context : Type} (invalid : Context → MempoolEntry Payload → Bool × Context)
    (context : Context) (queue : Queue Payload) : queue.Removes (queue.sweep invalid context).2 :=
  removes_sweepLoop invalid context [] queue.entries queue

/-! ## Insertion -/

instance : IsTrans (IndexedMempoolEntry Payload)
    fun left right => FeeOrder left.entry right.entry where
  trans := fun _ _ _ hleft hright => UInt64.le_trans hright hleft

instance : Std.Total (α := IndexedMempoolEntry Payload)
    fun left right => FeeOrder left.entry right.entry where
  total := fun left right => UInt64.le_total right.entry.fee left.entry.fee

theorem checkFresh_eq_ok (hfresh : queue.checkFresh entry = .ok ()) :
    entry.txId ∉ queue.txIds ∧ ∀ input ∈ entry.inputs, queue.claimedInputs.lookup input = none := by
  unfold checkFresh conflict at hfresh
  split at hfresh
  · cases hfresh
  · rename_i hnew
    split at hfresh
    · cases hfresh
    · rename_i hconflict
      exact ⟨hnew, List.findSome?_eq_none_iff.mp hconflict⟩

theorem lookup_foldl_insert (inputs : List ShelleyTxIn) (txId : TxId)
    (claimed : KeyedMap ShelleyTxIn TxId) (input : ShelleyTxIn) :
    (inputs.foldl (fun claimed input => claimed.insert input txId) claimed).lookup input =
      if input ∈ inputs then some txId else claimed.lookup input := by
  induction inputs generalizing claimed with
  | nil => simp
  | cons first rest ih =>
    rw [List.foldl_cons, ih]
    by_cases hsame : input = first
    · subst hsame
      simp
    · simp [hsame]

/-- The entries after a push are those before it and the new one, in another order. -/
theorem perm_push (queue : Queue Payload) (entry : MempoolEntry Payload) (bytes : Nat) :
    (queue.push entry bytes).entries.Perm (queue.nextEntry entry :: queue.entries) :=
  (List.perm_insertionSort _ _).trans (List.perm_append_singleton _ _)

theorem mem_push {bytes : Nat} :
    indexed ∈ (queue.push entry bytes).entries ↔
      indexed = queue.nextEntry entry ∨ indexed ∈ queue.entries := by
  rw [(perm_push queue entry bytes).mem_iff, List.mem_cons]

/-- Pushing a fresh entry keeps everything but the order of the indexes consistent; that holds
exactly when the next index does not wrap. -/
theorem consistent_push_iff (hqueue : queue.Consistent capacity)
    (hidx : -(2 ^ 63) ≤ queue.nextIdx ∧ queue.nextIdx < 2 ^ 63)
    (hfresh : queue.checkFresh entry = .ok ())
    (hroom : 0 < capacity → queue.currentBytes + entry.sizeBytes ≤ capacity) :
    (queue.push entry (queue.currentBytes + entry.sizeBytes)).Consistent capacity ↔
      queue.nextIdx ≠ 2 ^ 63 - 1 := by
  obtain ⟨hnewId, hfree⟩ := checkFresh_eq_ok hfresh
  have hperm := perm_push queue entry (queue.currentBytes + entry.sizeBytes)
  constructor
  · intro hpushed hlast
    have hbelow := hpushed.below (queue.nextEntry entry) (mem_push.mpr (.inl rfl))
    change queue.nextIdx < succIdx queue.nextIdx at hbelow
    rw [hlast] at hbelow
    exact absurd hbelow (by decide)
  · intro hnotLast
    have hnext : (queue.push entry (queue.currentBytes + entry.sizeBytes)).nextIdx =
        queue.nextIdx + 1 := succIdx_of_lt hidx.1 (by omega)
    -- a resident with an input of the new entry would have claimed it
    have hunshared : ∀ indexed ∈ queue.entries, ∀ input ∈ entry.inputs,
        input ∉ indexed.entry.inputs := by
      intro indexed hmem input hinput hshared
      have hclaimed := (hqueue.claims input indexed.entry.txId).mpr
        ⟨indexed, hmem, hshared, rfl⟩
      rw [hfree input hinput] at hclaimed
      cases hclaimed
    exact
      { fees := List.pairwise_insertionSort _ _
        indexes := by
          rw [(hperm.map _).nodup_iff, List.map_cons, List.nodup_cons]
          refine ⟨fun hmem => ?_, hqueue.indexes⟩
          obtain ⟨indexed, hindexed, hsame⟩ := List.mem_map.mp hmem
          have hbelow := hqueue.below indexed hindexed
          rw [hsame] at hbelow
          exact lt_irrefl _ hbelow
        below := by
          intro indexed hindexed
          rw [hnext]
          rcases mem_push.mp hindexed with rfl | hold
          · exact Int.lt_succ _
          · have hbelow := hqueue.below indexed hold
            omega
        bytes := by
          rw [(hperm.map _).sum_eq, List.map_cons, List.sum_cons, ← hqueue.bytes]
          exact add_comm _ _
        maxBytes := hqueue.maxBytes
        capacity := hroom
        ids := by
          rw [(hperm.map _).nodup_iff, List.map_cons, List.nodup_cons]
          refine ⟨fun hmem => ?_, hqueue.ids⟩
          obtain ⟨indexed, hindexed, hsame⟩ := List.mem_map.mp hmem
          exact hnewId ((hqueue.members _).mpr ⟨indexed, hindexed, hsame⟩)
        members := by
          intro txId
          change txId ∈ Insert.insert entry.txId queue.txIds ↔ _
          rw [Finset.mem_insert, hqueue.members, exists_mem_of_perm hperm]
          exact or_congr eq_comm Iff.rfl
        inputs := by
          have hsymm : ∀ {left right : IndexedMempoolEntry Payload},
              (∀ input ∈ left.entry.inputs, input ∉ right.entry.inputs) →
              ∀ input ∈ right.entry.inputs, input ∉ left.entry.inputs :=
            fun hdisjoint input hright hleft => hdisjoint input hleft hright
          exact (hperm.pairwise_iff hsymm).mpr
            (List.pairwise_cons.mpr ⟨hunshared, hqueue.inputs⟩)
        claims := by
          intro input txId
          change (entry.inputs.foldl (fun claimed input => claimed.insert input entry.txId)
            queue.claimedInputs).lookup input = some txId ↔ _
          rw [lookup_foldl_insert, exists_mem_of_perm hperm]
          by_cases hinput : input ∈ entry.inputs
          · have hnobody : ¬ ∃ indexed ∈ queue.entries,
                input ∈ indexed.entry.inputs ∧ indexed.entry.txId = txId :=
              fun ⟨indexed, hmem, hshared, _⟩ => hunshared indexed hmem input hinput hshared
            rw [if_pos hinput, or_iff_left hnobody, Option.some_inj]
            exact (and_iff_right hinput).symm
          · rw [if_neg hinput, hqueue.claims]
            exact (or_iff_right fun hnew => hinput hnew.1).symm }

/-! ## Words -/

/-- The next index and the byte count are 64-bit words. -/
structure Words (queue : Queue Payload) : Prop where
  nextIdx : -(2 ^ 63) ≤ queue.nextIdx ∧ queue.nextIdx < 2 ^ 63
  currentBytes : queue.currentBytes < 2 ^ 64

theorem words_withCapacity (capacity : Nat) : (withCapacity capacity : Queue Payload).Words where
  nextIdx := by simp [withCapacity]
  currentBytes := by simp [withCapacity]

theorem succIdx_bounds (idx : Int) : -(2 ^ 63) ≤ succIdx idx ∧ succIdx idx < 2 ^ 63 := by
  have hlow := Int.le_bmod (x := idx + 1) (m := 2 ^ 64) (by norm_num)
  have hhigh := Int.bmod_lt (x := idx + 1) (m := 2 ^ 64) (by norm_num)
  unfold succIdx
  exact ⟨by omega, by omega⟩

theorem Removes.words (hremoves : queue.Removes next) (hwords : queue.Words) : next.Words := by
  induction hremoves with
  | nothing queue => exact hwords
  | entry hsplit hlater ih => exact ih ⟨hwords.nextIdx, Nat.mod_lt _ (by norm_num)⟩
  | stray hstray => exact ⟨hwords.nextIdx, hwords.currentBytes⟩
  | tail queue count =>
    obtain ⟨-, hnext, -, hbytes⟩ := evictTail_frame queue count
    exact ⟨hnext ▸ hwords.nextIdx, hbytes.trans_lt hwords.currentBytes⟩

theorem words_insert (hinsert : queue.insert entry = .ok next) : next.Words := by
  obtain ⟨-, hword, -, rfl⟩ := insert_spec hinsert
  exact ⟨succIdx_bounds _, hword⟩

/-- A successful insertion keeps the queue consistent exactly when the next index does not
wrap. -/
theorem consistent_insert_iff (hqueue : queue.Consistent capacity)
    (hidx : -(2 ^ 63) ≤ queue.nextIdx ∧ queue.nextIdx < 2 ^ 63)
    (hinsert : queue.insert entry = .ok next) :
    next.Consistent capacity ↔ queue.nextIdx ≠ 2 ^ 63 - 1 := by
  obtain ⟨hfresh, -, hroom, rfl⟩ := insert_spec hinsert
  rw [hqueue.maxBytes] at hroom
  exact consistent_push_iff hqueue hidx hfresh hroom

/-! ## Insertion with eviction -/

theorem evictTail_zero (queue : Queue Payload) : queue.evictTail 0 = ([], queue) := by
  simp [evictTail]

/-- A call of `insert_with_eviction` inserts the entry after an eviction, or it only removes. -/
theorem insertWithEvictionInPlace_cases (queue : Queue Payload) (entry : MempoolEntry Payload) :
    ((queue.insertWithEvictionInPlace entry).1.isOk = false ∧
        queue.Removes (queue.insertWithEvictionInPlace entry).2) ∨
      (queue.insertWithEvictionInPlace entry).1.isOk = true ∧ queue.checkFresh entry = .ok () ∧
        ∃ count, (queue.evictTail count).2.insert entry =
          .ok (queue.insertWithEvictionInPlace entry).2 := by
  unfold insertWithEvictionInPlace
  cases hchecks : queue.tailToEvict entry with
  | error reason => exact .inl ⟨rfl, .nothing queue⟩
  | ok count =>
    obtain ⟨⟨⟩, hfresh, -⟩ := bind_eq_ok.mp hchecks
    dsimp only
    cases hinsert : (queue.evictTail count).2.insert entry with
    | error reason => exact .inl ⟨rfl, .tail queue count⟩
    | ok next => exact .inr ⟨rfl, hfresh, count, hinsert⟩

end Queue

/-! ## Runs -/

/-- The operations on the mempool.  The callback of `revalidateWithLedger` may carry any state. -/
inductive MempoolOp (Payload : Type) : Type 1 where
  | insert (entry : MempoolEntry Payload)
  | insertWithEviction (entry : MempoolEntry Payload)
  | popBest
  | removeById (txId : TxId)
  | removeConfirmed (confirmed : List TxId)
  | removeConflictingInputs (consumed : List ShelleyTxIn)
  | purgeExpired (currentSlot : SlotNo)
  | revalidate (currentSlot : SlotNo) (availableInputs : Finset ShelleyTxIn)
  | revalidateWithLedger (Context : Type) (context : Context)
      (validate : Context → MempoolEntry Payload → Bool × Context)
  | purgeInvalidForParams (currentSlot : SlotNo) (params : ProtocolParameters)

variable {Payload : Type}

namespace Queue

/-- The queue after an operation. -/
def perform (queue : Queue Payload) : MempoolOp Payload → Queue Payload
  | .insert entry =>
    match queue.insert entry with
    | .ok next => next
    | .error _ => queue
  | .insertWithEviction entry => (queue.insertWithEvictionInPlace entry).2
  | .popBest => queue.popBest.2
  | .removeById txId => (queue.removeById txId).2
  | .removeConfirmed confirmed => (queue.removeConfirmed confirmed).2
  | .removeConflictingInputs consumed => (queue.removeConflictingInputs consumed).2
  | .purgeExpired currentSlot => (queue.purgeExpired currentSlot).2
  | .revalidate currentSlot availableInputs => (queue.revalidate currentSlot availableInputs).2
  | .revalidateWithLedger _ context validate => (queue.revalidateWithLedger validate context).2
  | .purgeInvalidForParams currentSlot params =>
    (queue.purgeInvalidForParams currentSlot params).2

/-- The operation inserts an entry. -/
def admits (queue : Queue Payload) : MempoolOp Payload → Bool
  | .insert entry => (queue.insert entry).isOk
  | .insertWithEviction entry => (queue.insertWithEvictionInPlace entry).1.isOk
  | _ => false

end Queue

/-- The mempool under any sequence of operations. -/
def mempoolSystem (capacity : Nat) : TransitionSystem (Queue Payload) (MempoolOp Payload) where
  start := Queue.withCapacity capacity
  enabled := fun _ _ => True
  step := Queue.perform

namespace Queue

/-! ## One operation -/

/-- **What one operation can do**: it only removes, or it inserts an entry that is new, perhaps
after an eviction. -/
theorem perform_spec (queue : Queue Payload) (op : MempoolOp Payload) :
    (queue.admits op = false ∧ queue.Removes (queue.perform op)) ∨
      ∃ entry, (op = .insert entry ∨ op = .insertWithEviction entry) ∧ queue.admits op = true ∧
        queue.checkFresh entry = .ok () ∧
        ∃ count, (queue.evictTail count).2.insert entry = .ok (queue.perform op) := by
  cases op with
  | insert entry =>
    simp only [admits, perform]
    cases hinsert : queue.insert entry with
    | error reason => exact .inl ⟨rfl, .nothing queue⟩
    | ok next =>
      exact .inr ⟨entry, .inl rfl, rfl, (insert_spec hinsert).1, 0,
        by rw [evictTail_zero]; exact hinsert⟩
  | insertWithEviction entry =>
    obtain hrefused | ⟨hadmitted, hspec⟩ := insertWithEvictionInPlace_cases queue entry
    · exact .inl hrefused
    · exact .inr ⟨entry, .inr rfl, hadmitted, hspec⟩
  | popBest => exact .inl ⟨rfl, removes_popBest queue⟩
  | removeById txId => exact .inl ⟨rfl, removes_removeById queue txId⟩
  | removeConflictingInputs consumed =>
    refine .inl ⟨rfl, ?_⟩
    change queue.Removes (queue.removeConflictingInputs consumed).2
    unfold removeConflictingInputs
    split
    · exact .nothing queue
    · exact removes_sweep _ _ queue
  | removeConfirmed _ | purgeExpired _ | revalidate _ _ | revalidateWithLedger _ _ _
  | purgeInvalidForParams _ _ => exact .inl ⟨rfl, removes_sweep _ _ queue⟩

theorem words_perform {queue : Queue Payload} (hwords : queue.Words) (op : MempoolOp Payload) :
    (queue.perform op).Words := by
  obtain ⟨-, hremoves⟩ | ⟨entry, -, -, -, count, hinsert⟩ := perform_spec queue op
  · exact hremoves.words hwords
  · exact words_insert hinsert

/-- One operation keeps the queue consistent unless it inserts with the largest index. -/
theorem consistent_perform_iff {capacity : Nat} {queue : Queue Payload} (hwords : queue.Words)
    (hqueue : queue.Consistent capacity) (op : MempoolOp Payload) :
    (queue.perform op).Consistent capacity ↔
      (queue.nextIdx = 2 ^ 63 - 1 → queue.admits op = false) := by
  obtain ⟨hremoved, hremoves⟩ | ⟨entry, -, hadmits, -, count, hinsert⟩ := perform_spec queue op
  · exact iff_of_true (hremoves.consistent hqueue hwords.currentBytes) fun _ => hremoved
  · have hnext : (queue.perform op).Consistent capacity ↔ queue.nextIdx ≠ 2 ^ 63 - 1 := by
      have hframe := (evictTail_frame queue count).2.1
      rw [← hframe]
      exact consistent_insert_iff (consistent_evictTail hqueue count) (hframe ▸ hwords.nextIdx)
        hinsert
    rw [hnext, hadmits]
    simp

end Queue

/-! ## Whole runs -/

/-- **The mempool stays consistent.**  Along any sequence of operations the queue is consistent
in every state exactly as long as nothing is inserted with the largest index. -/
theorem mempool_consistent_iff (capacity : Nat) (ops : List (MempoolOp Payload)) :
    (∀ done, done <+: ops → ((mempoolSystem capacity).run done).Consistent capacity) ↔
      ∀ done op, done ++ [op] <+: ops →
        (((mempoolSystem capacity).run done).nextIdx = 2 ^ 63 - 1 →
          ((mempoolSystem capacity).run done).admits op = false) :=
  (mempoolSystem capacity).invariant_iff_guarded Queue.Words (Queue.Consistent capacity)
    (fun queue op => queue.nextIdx = 2 ^ 63 - 1 → queue.admits op = false)
    (Queue.words_withCapacity capacity) (Queue.consistent_withCapacity capacity)
    (fun _ op _ hwords => Queue.words_perform hwords op)
    (fun _ op _ hwords hqueue => Queue.consistent_perform_iff hwords hqueue op)
    (fun _ _ _ => trivial)

/-! ## The largest index -/

def tinyEntry : MempoolEntry Unit where
  txId := 1
  fee := 1
  bodySize := 1
  sizeBytes := 1
  ttl := 0
  inputs := []
  totalExUnits := none
  payload := ()

/-- Insert the entry and take it out again, so many times. -/
def churn : Nat → List (MempoolOp Unit)
  | 0 => []
  | rounds + 1 => churn rounds ++ [.insert tinyEntry] ++ [.popBest]

/-- An empty queue that has given out indexes before. -/
def idleQueue (idx : Int) : Queue Unit :=
  { (Queue.withCapacity 0 : Queue Unit) with nextIdx := idx }

theorem insert_idleQueue (idx : Int) :
    (idleQueue idx).perform (.insert tinyEntry) = (idleQueue idx).push tinyEntry 1 := by
  simp [Queue.perform, Queue.insert, Queue.checkFresh, Queue.conflict, Queue.nextBytes,
    idleQueue, Queue.withCapacity, tinyEntry, bind, Except.bind, pure, Except.pure]

theorem popBest_push_idleQueue (idx : Int) :
    ((idleQueue idx).push tinyEntry 1).perform .popBest = idleQueue (Queue.succIdx idx) := by
  have hbytes : Queue.wrappingSub 1 1 = 0 := by decide
  simp [Queue.perform, Queue.popBest, Queue.push, Queue.nextEntry, Queue.release, Queue.forget,
    idleQueue, Queue.withCapacity, tinyEntry, KeyedMap.eraseAll, hbytes]

/-- Each round moves the index and nothing else. -/
theorem run_churn {rounds : Nat} (hrounds : rounds < 2 ^ 63) :
    (mempoolSystem 0).run (churn rounds) = idleQueue rounds := by
  induction rounds with
  | zero => rfl
  | succ rounds ih =>
    rw [churn, TransitionSystem.run_concat, TransitionSystem.run_concat, ih (by omega)]
    change ((idleQueue rounds).perform (.insert tinyEntry)).perform .popBest = _
    rw [insert_idleQueue, popBest_push_idleQueue, Queue.succIdx_of_lt (by omega) (by omega)]
    rfl

theorem run_churn_insert {rounds : Nat} (hrounds : rounds < 2 ^ 63) :
    (mempoolSystem 0).run (churn rounds ++ [.insert tinyEntry]) =
      (idleQueue rounds).push tinyEntry 1 := by
  rw [TransitionSystem.run_concat, run_churn hrounds]
  exact insert_idleQueue rounds

/-- After `2 ^ 63` insertions the index of a resident is not below the next one. -/
theorem mempool_index_wraps :
    ¬ ((mempoolSystem 0).run (churn (2 ^ 63 - 1) ++ [.insert tinyEntry])).Consistent 0 := by
  intro hqueue
  rw [run_churn_insert (by norm_num)] at hqueue
  have hbelow := hqueue.below _ (Queue.mem_push.mpr (.inl rfl))
  exact absurd hbelow (by decide)

end Yggdrasil.Consensus.Mempool
