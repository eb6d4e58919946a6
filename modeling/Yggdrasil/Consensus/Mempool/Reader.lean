import Yggdrasil.Consensus.Mempool.QueueInvariant

/-!
# A reader of the mempool

The outbound side of TxSubmission polls `mempool_txids_after` of
`crates/consensus/src/mempool/queue.rs` with the largest index it has seen.  Whether it sees every
transaction once is said without the indexes: each insertion has a number, its place among all
insertions of the run, and the reader's history lists ids with the number of the insertion it was
told of.  The numbers and the history are not part of the code.

The index of a resident is the number of its insertion as long as the indexes do not wrap, which
they do after `2 ^ 63` insertions (`reader_exact`, `wrapped_index_not_reported`).
-/

namespace Yggdrasil.Consensus.Mempool

open Ledger Library

variable {Payload : Type}

/-! ## What an operation does to the entries -/

/-- The entry an operation wants to insert. -/
def MempoolOp.newcomer : MempoolOp Payload → Option (MempoolEntry Payload)
  | .insert entry => some entry
  | .insertWithEviction entry => some entry
  | _ => none

namespace Queue

/-- The entry an operation inserts. -/
def inserted (queue : Queue Payload) (op : MempoolOp Payload) : Option (MempoolEntry Payload) :=
  bif queue.admits op then op.newcomer else none

/-- The entries only lose members, and the next index stays. -/
def Shrinks (queue next : Queue Payload) : Prop :=
  next.entries.Sublist queue.entries ∧ next.nextIdx = queue.nextIdx

/-- The entries lose members and gain a new one under the next index. -/
def Gains (entry : MempoolEntry Payload) (queue next : Queue Payload) : Prop :=
  entry.txId ∉ queue.txIds ∧ next.nextIdx = succIdx queue.nextIdx ∧
    ∃ kept, kept.Sublist queue.entries ∧ next.entries.Perm (queue.nextEntry entry :: kept)

theorem Removes.shrinks {queue next : Queue Payload} (hremoves : queue.Removes next) :
    queue.Shrinks next := by
  induction hremoves with
  | nothing queue => exact ⟨List.Sublist.refl _, rfl⟩
  | @entry queue next front back removed hsplit hlater ih =>
    refine ⟨ih.1.trans ?_, ih.2⟩
    rw [hsplit]
    exact (List.sublist_cons_self removed back).append_left front
  | stray hstray => exact ⟨List.Sublist.refl _, rfl⟩
  | tail queue count =>
    obtain ⟨hentries, hnext, -⟩ := evictTail_frame queue count
    exact ⟨hentries ▸ List.take_sublist _ _, hnext⟩

theorem gains_of_insert {queue next : Queue Payload} {entry : MempoolEntry Payload}
    (hinsert : queue.insert entry = .ok next) : queue.Gains entry next := by
  obtain ⟨hfresh, -, -, rfl⟩ := insert_spec hinsert
  exact ⟨(checkFresh_eq_ok hfresh).1, rfl, queue.entries, List.Sublist.refl _, perm_push _ _ _⟩

/-- An operation inserts an entry, or it only removes some. -/
theorem perform_cases (queue : Queue Payload) (op : MempoolOp Payload) :
    (queue.inserted op = none ∧ queue.Shrinks (queue.perform op)) ∨
      ∃ entry, queue.inserted op = some entry ∧ queue.Gains entry (queue.perform op) := by
  obtain ⟨hremoved, hremoves⟩ | ⟨entry, hop, hadmits, hfresh, count, hinsert⟩ :=
    perform_spec queue op
  · exact .inl ⟨by rw [inserted, hremoved]; rfl, hremoves.shrinks⟩
  · refine .inr ⟨entry, ?_, ?_⟩
    · rw [inserted, hadmits]
      rcases hop with rfl | rfl <;> rfl
    · obtain ⟨-, hindex, kept, hkept, hperm⟩ := gains_of_insert hinsert
      obtain ⟨hentries, hnext, -⟩ := evictTail_frame queue count
      rw [hnext] at hindex
      rw [hentries] at hkept
      rw [nextEntry, hnext] at hperm
      exact ⟨(checkFresh_eq_ok hfresh).1, hindex, kept, hkept.trans (List.take_sublist _ _), hperm⟩

end Queue

/-! ## The mempool and its reader -/

/-- A mempool with one reader.  `insertions` counts the insertions so far, `number` gives for an id
the number of its last insertion, and `told` lists what the reader has been given, each id with the
number it had. -/
structure Watched (Payload : Type) where
  queue : Queue Payload
  insertions : Nat
  number : TxId → Nat
  cursor : Int
  told : List (TxId × Nat)

/-- An operation on the mempool, or a poll. -/
inductive ReaderAction (Payload : Type) : Type 1 where
  | mutate (op : MempoolOp Payload)
  | poll

namespace Watched

/-- What a poll returns. -/
def reply (state : Watched Payload) : List (TxId × Int × Nat) :=
  state.queue.mempoolTxidsAfter state.cursor

def mutate (state : Watched Payload) (op : MempoolOp Payload) : Watched Payload :=
  match state.queue.inserted op with
  | none => { state with queue := state.queue.perform op }
  | some entry =>
    { state with
      queue := state.queue.perform op
      insertions := state.insertions + 1
      number := Function.update state.number entry.txId state.insertions }

/-- The reader keeps the largest index it has seen. -/
def poll (state : Watched Payload) : Watched Payload :=
  { state with
    cursor := state.reply.foldl (fun cursor row => max cursor row.2.1) state.cursor
    told := state.told ++ state.reply.map fun row => (row.1, state.number row.1) }

def step (state : Watched Payload) : ReaderAction Payload → Watched Payload
  | .mutate op => state.mutate op
  | .poll => state.poll

/-- What is right about a poll in a state: it returns exactly the residents inserted after
everything the reader was told of, in the order of insertion; then nothing has been told twice for
one insertion, and every resident has been told. -/
structure ExactlyOnce (state : Watched Payload) : Prop where
  new : state.reply.Perm ((state.queue.entries.filter fun indexed =>
    decide (∀ told ∈ state.told, told.2 < state.number indexed.entry.txId)).map fun indexed =>
      (indexed.entry.txId, indexed.idx, indexed.entry.sizeBytes))
  ordered : state.reply.Pairwise fun left right => state.number left.1 < state.number right.1
  once : state.poll.told.Nodup
  all : ∀ indexed ∈ state.queue.entries,
    (indexed.entry.txId, state.number indexed.entry.txId) ∈ state.poll.told

/-- As long as the indexes do not wrap, a resident's index is the number of its insertion. -/
structure Tracked (capacity : Nat) (state : Watched Payload) : Prop where
  words : state.queue.Words
  exact : state.insertions < 2 ^ 63 →
    state.queue.nextIdx = state.insertions ∧ state.queue.Consistent capacity
  indexes : (state.queue.entries.map IndexedMempoolEntry.idx).Nodup
  numbered : ∀ indexed ∈ state.queue.entries, indexed.idx = state.number indexed.entry.txId
  below : ∀ indexed ∈ state.queue.entries, indexed.idx < state.insertions
  cursorBelow : state.cursor < state.insertions
  cursor : state.cursor = Queue.mempoolZeroIdx ∨ ∃ told ∈ state.told, (told.2 : Int) = state.cursor
  toldBelow : ∀ told ∈ state.told, (told.2 : Int) ≤ state.cursor
  once : state.told.Nodup
  covered : ∀ indexed ∈ state.queue.entries, indexed.idx ≤ state.cursor →
    (indexed.entry.txId, state.number indexed.entry.txId) ∈ state.told

end Watched

/-- The mempool and its reader under any interleaving. -/
def watchedSystem (capacity : Nat) : TransitionSystem (Watched Payload) (ReaderAction Payload) where
  start :=
    { queue := Queue.withCapacity capacity, insertions := 0, number := fun _ => 0
      cursor := Queue.mempoolZeroIdx, told := [] }
  enabled := fun _ _ => True
  step := Watched.step

namespace Watched

variable {capacity : Nat} {state : Watched Payload}

/-! ## Operations -/

variable {op : MempoolOp Payload}

theorem admits_of_inserted_eq_none {queue : Queue Payload} (hnone : queue.inserted op = none) :
    queue.admits op = false := by
  unfold Queue.inserted at hnone
  cases op with
  | insert entry | insertWithEviction entry => simpa [MempoolOp.newcomer, cond_eq_ite] using hnone
  | _ => rfl

theorem Tracked.shrink (htracked : state.Tracked capacity) (hnone : state.queue.inserted op = none)
    (hshrinks : state.queue.Shrinks (state.queue.perform op)) :
    ({ state with queue := state.queue.perform op } : Watched Payload).Tracked capacity where
  words := Queue.words_perform htracked.words op
  exact hfew := by
    obtain ⟨hindex, hconsistent⟩ := htracked.exact hfew
    refine ⟨hshrinks.2.trans hindex, ?_⟩
    exact (Queue.consistent_perform_iff htracked.words hconsistent op).mpr fun _ =>
      admits_of_inserted_eq_none hnone
  indexes := htracked.indexes.sublist (hshrinks.1.map _)
  numbered indexed hmem := htracked.numbered indexed (hshrinks.1.subset hmem)
  below indexed hmem := htracked.below indexed (hshrinks.1.subset hmem)
  cursorBelow := htracked.cursorBelow
  cursor := htracked.cursor
  toldBelow := htracked.toldBelow
  once := htracked.once
  covered indexed hmem := htracked.covered indexed (hshrinks.1.subset hmem)

/-- After an insertion the residents are the new entry, under the number of the insertion, and some
of the old ones, whose ids are others. -/
theorem Tracked.gain (htracked : state.Tracked capacity) (hfew : state.insertions < 2 ^ 63)
    {entry : MempoolEntry Payload} (hgains : state.queue.Gains entry (state.queue.perform op)) :
    ({ state with
        queue := state.queue.perform op
        insertions := state.insertions + 1
        number := Function.update state.number entry.txId state.insertions } :
      Watched Payload).Tracked capacity := by
  obtain ⟨hindex, hconsistent⟩ := htracked.exact hfew
  obtain ⟨hfresh, hnext, kept, hkept, hperm⟩ := hgains
  have hother : ∀ indexed ∈ kept, indexed.entry.txId ≠ entry.txId := by
    intro indexed hmem hsame
    exact hfresh ((hconsistent.members _).mpr ⟨indexed, hkept.subset hmem, hsame⟩)
  have hnew : (state.queue.nextEntry entry).idx = state.insertions := hindex
  have hresidents : ∀ indexed ∈ (state.queue.perform op).entries,
      indexed = state.queue.nextEntry entry ∨ indexed ∈ kept := fun indexed hmem =>
    List.mem_cons.mp (hperm.mem_iff.mp hmem)
  refine ⟨Queue.words_perform htracked.words op, fun hfewer => ?_, ?_, fun indexed hmem => ?_,
    fun indexed hmem => ?_, ?_, htracked.cursor, htracked.toldBelow, htracked.once,
    fun indexed hmem hseen => ?_⟩
  · dsimp only at hfewer ⊢
    refine ⟨?_, (Queue.consistent_perform_iff htracked.words hconsistent op).mpr fun hlast => ?_⟩
    · rw [hnext, hindex, Queue.succIdx_of_lt (by omega) (by omega)]
      rfl
    · omega
  · rw [(hperm.map _).nodup_iff, List.map_cons, List.nodup_cons]
    refine ⟨fun hmem => ?_, htracked.indexes.sublist (hkept.map _)⟩
    obtain ⟨indexed, hindexed, hsame⟩ := List.mem_map.mp hmem
    have hbelow := hconsistent.below indexed (hkept.subset hindexed)
    rw [hsame] at hbelow
    exact absurd hbelow (lt_irrefl _)
  · rcases hresidents indexed hmem with rfl | hold
    · rw [hnew]
      simp [Queue.nextEntry]
    · dsimp only
      rw [Function.update_of_ne (hother indexed hold)]
      exact htracked.numbered indexed (hkept.subset hold)
  · push_cast
    rcases hresidents indexed hmem with rfl | hold
    · omega
    · have hbelow := htracked.below indexed (hkept.subset hold)
      omega
  · have hcursor := htracked.cursorBelow
    push_cast
    omega
  · rcases hresidents indexed hmem with rfl | hold
    · -- the reader has not seen the new index
      have hcursor := htracked.cursorBelow
      dsimp only at hseen
      omega
    · dsimp only
      rw [Function.update_of_ne (hother indexed hold)]
      exact htracked.covered indexed (hkept.subset hold) hseen

/-! ## Polls -/

instance : IsTrans (TxId × Int × Nat) fun left right => left.2.1 ≤ right.2.1 where
  trans := fun _ _ _ hleft hright => le_trans hleft hright

instance : Std.Total (α := TxId × Int × Nat) fun left right => left.2.1 ≤ right.2.1 where
  total := fun left right => le_total left.2.1 right.2.1

theorem mem_reply {row : TxId × Int × Nat} :
    row ∈ state.reply ↔ ∃ indexed ∈ state.queue.entries, state.cursor < indexed.idx ∧
      row = (indexed.entry.txId, indexed.idx, indexed.entry.sizeBytes) := by
  rw [reply, Queue.mempoolTxidsAfter, List.mem_insertionSort, List.mem_map]
  constructor
  · rintro ⟨indexed, hmem, rfl⟩
    obtain ⟨hentry, hafter⟩ := List.mem_filter.mp hmem
    exact ⟨indexed, hentry, of_decide_eq_true hafter, rfl⟩
  · rintro ⟨indexed, hmem, hafter, rfl⟩
    exact ⟨indexed, List.mem_filter.mpr ⟨hmem, decide_eq_true hafter⟩, rfl⟩

/-- The largest of some values and a first one. -/
theorem foldl_max_spec {Row : Type} (value : Row → Int) (rows : List Row) (first : Int) :
    first ≤ rows.foldl (fun largest row => max largest (value row)) first ∧
    (∀ row ∈ rows, value row ≤ rows.foldl (fun largest row => max largest (value row)) first) ∧
    (rows.foldl (fun largest row => max largest (value row)) first = first ∨
      ∃ row ∈ rows, value row = rows.foldl (fun largest row => max largest (value row)) first) := by
  induction rows generalizing first with
  | nil => simp
  | cons row rest ih =>
    obtain ⟨hfirst, hrest, hreached⟩ := ih (max first (value row))
    refine ⟨le_trans (le_max_left _ _) hfirst, ?_, ?_⟩
    · intro other hother
      rcases List.mem_cons.mp hother with rfl | hother
      · exact le_trans (le_max_right _ _) hfirst
      · exact hrest other hother
    · rw [List.foldl_cons]
      rcases hreached with hsame | ⟨other, hother, hvalue⟩
      · rw [hsame]
        rcases max_choice first (value row) with hmax | hmax
        · exact .inl hmax
        · exact .inr ⟨row, List.mem_cons_self, hmax.symm⟩
      · exact .inr ⟨other, List.mem_cons_of_mem _ hother, hvalue⟩

section

variable (htracked : state.Tracked capacity)
include htracked

/-- Two rows of a reply are of two entries, so their indexes and numbers differ. -/
theorem Tracked.reply_pairwise : state.reply.Pairwise fun left right => left.2.1 < right.2.1 := by
  have hsorted : state.reply.Pairwise fun left right => left.2.1 ≤ right.2.1 := by
    rw [reply]
    exact List.pairwise_insertionSort _ _
  have hdistinct : (state.reply.map fun row => row.2.1).Nodup := by
    have hperm : (state.reply.map fun row => row.2.1).Perm
        ((state.queue.entries.filter fun indexed => state.cursor < indexed.idx).map
          IndexedMempoolEntry.idx) := by
      rw [reply]
      refine ((List.perm_insertionSort _ _).map _).trans ?_
      rw [List.map_map]
      exact List.Perm.refl _
    rw [hperm.nodup_iff]
    exact htracked.indexes.sublist (List.filter_sublist.map _)
  exact (hsorted.and (List.pairwise_map.mp hdistinct)).imp fun hrow => lt_of_le_of_ne hrow.1 hrow.2

theorem Tracked.number_eq {row : TxId × Int × Nat} (hrow : row ∈ state.reply) :
    (state.number row.1 : Int) = row.2.1 := by
  obtain ⟨indexed, hmem, -, rfl⟩ := mem_reply.mp hrow
  exact (htracked.numbered indexed hmem).symm

/-- The reader's cursor separates what it was told of from what is new. -/
theorem Tracked.after_cursor_iff {indexed : IndexedMempoolEntry Payload}
    (hmem : indexed ∈ state.queue.entries) :
    state.cursor < indexed.idx ↔ ∀ told ∈ state.told, told.2 < state.number indexed.entry.txId := by
  rw [htracked.numbered indexed hmem]
  constructor
  · intro hafter told htold
    have hbelow := htracked.toldBelow told htold
    omega
  · intro hall
    rcases htracked.cursor with hzero | ⟨told, htold, hcursor⟩
    · rw [hzero, Queue.mempoolZeroIdx]
      omega
    · have hless := hall told htold
      omega

theorem Tracked.poll_once : state.poll.told.Nodup := by
  refine List.nodup_append.mpr ⟨htracked.once, ?_, ?_⟩
  · refine (List.pairwise_map.mpr ?_ : (state.reply.map _).Nodup)
    refine htracked.reply_pairwise.imp_of_mem fun hleft hright hless hsame => ?_
    have hnumber : state.number _ = state.number _ := congrArg Prod.snd hsame
    rw [← htracked.number_eq hleft, ← htracked.number_eq hright, hnumber] at hless
    exact absurd hless (lt_irrefl _)
  · rintro told htold other hother rfl
    obtain ⟨row, hrow, rfl⟩ := List.mem_map.mp hother
    obtain ⟨indexed, hmem, hafter, rfl⟩ := mem_reply.mp hrow
    exact absurd ((htracked.after_cursor_iff hmem).mp hafter _ htold) (lt_irrefl _)

theorem Tracked.poll_all :
    ∀ indexed ∈ state.queue.entries,
      (indexed.entry.txId, state.number indexed.entry.txId) ∈ state.poll.told := by
  intro indexed hmem
  by_cases hseen : indexed.idx ≤ state.cursor
  · exact List.mem_append_left _ (htracked.covered indexed hmem hseen)
  · refine List.mem_append_right _ (List.mem_map.mpr ⟨_, mem_reply.mpr
      ⟨indexed, hmem, lt_of_not_ge hseen, rfl⟩, rfl⟩)

theorem Tracked.exactlyOnce : state.ExactlyOnce where
  new := by
    rw [reply]
    refine (List.perm_insertionSort _ _).trans (List.Perm.of_eq (congrArg _ ?_))
    refine List.filter_congr fun indexed hmem => ?_
    exact decide_eq_decide.mpr (htracked.after_cursor_iff hmem)
  ordered := by
    refine htracked.reply_pairwise.imp_of_mem fun hleft hright hless => ?_
    rw [← htracked.number_eq hleft, ← htracked.number_eq hright] at hless
    exact_mod_cast hless
  once := htracked.poll_once
  all := htracked.poll_all

theorem Tracked.poll : state.poll.Tracked capacity := by
  obtain ⟨hgrows, hlargest, hreached⟩ := foldl_max_spec (fun row => row.2.1)
    state.reply state.cursor
  refine ⟨htracked.words, htracked.exact, htracked.indexes, htracked.numbered, htracked.below, ?_,
    ?_,
    fun told htold => ?_, htracked.poll_once, fun indexed hmem _ => htracked.poll_all indexed hmem⟩
  · rcases hreached with hsame | ⟨row, hrow, hrowIdx⟩
    · exact lt_of_eq_of_lt hsame htracked.cursorBelow
    · obtain ⟨indexed, hmem, -, rfl⟩ := mem_reply.mp hrow
      exact lt_of_eq_of_lt hrowIdx.symm (htracked.below indexed hmem)
  · rcases hreached with hsame | ⟨row, hrow, hrowIdx⟩
    · refine htracked.cursor.imp (fun hzero => hsame.trans hzero) ?_
      rintro ⟨told, htold, hcursor⟩
      exact ⟨told, List.mem_append_left _ htold, hcursor.trans hsame.symm⟩
    · refine .inr ⟨(row.1, state.number row.1),
        List.mem_append_right _ (List.mem_map.mpr ⟨row, hrow, rfl⟩), ?_⟩
      exact (htracked.number_eq hrow).trans hrowIdx
  · rcases List.mem_append.mp htold with hold | hnew
    · exact le_trans (htracked.toldBelow told hold) hgrows
    · obtain ⟨row, hrow, rfl⟩ := List.mem_map.mp hnew
      exact le_trans (le_of_eq (htracked.number_eq hrow)) (hlargest row hrow)

end

/-- One step, as long as there have not been more than `2 ^ 63` insertions. -/
theorem tracked_step (htracked : state.insertions ≤ 2 ^ 63 → state.Tracked capacity)
    (action : ReaderAction Payload) (hfew : (state.step action).insertions ≤ 2 ^ 63) :
    (state.step action).Tracked capacity := by
  cases action with
  | poll => exact (htracked hfew).poll
  | mutate op =>
    simp only [step, mutate] at hfew ⊢
    rcases state.queue.perform_cases op with ⟨hnone, hshrinks⟩ | ⟨entry, hsome, hgains⟩
    · rw [hnone] at hfew ⊢
      exact (htracked hfew).shrink hnone hshrinks
    · rw [hsome] at hfew ⊢
      exact (htracked (Nat.le_of_succ_le hfew)).gain hfew hgains

end Watched

/-- **The reader sees every transaction once, in order**, in every state of every interleaving with
at most `2 ^ 63` insertions. -/
theorem reader_exact (capacity : Nat) (actions : List (ReaderAction Payload))
    (hfew : ((watchedSystem capacity).run actions).insertions ≤ 2 ^ 63) :
    ((watchedSystem capacity).run actions).ExactlyOnce := by
  have hstart : ((watchedSystem capacity).start : Watched Payload).Tracked capacity :=
    { words := Queue.words_withCapacity capacity
      exact := fun _ => ⟨rfl, Queue.consistent_withCapacity capacity⟩
      indexes := List.nodup_nil
      numbered := fun _ hmem => absurd hmem List.not_mem_nil
      below := fun _ hmem => absurd hmem List.not_mem_nil
      cursorBelow := by simp [watchedSystem, Queue.mempoolZeroIdx]
      cursor := .inl rfl
      toldBelow := fun _ hmem => absurd hmem List.not_mem_nil
      once := List.nodup_nil
      covered := fun _ hmem => absurd hmem List.not_mem_nil }
  have hrun : ((watchedSystem capacity).run actions).insertions ≤ 2 ^ 63 →
      ((watchedSystem capacity).run actions).Tracked capacity :=
    (watchedSystem capacity).invariant_of_legal
      (fun state => state.insertions ≤ 2 ^ 63 → state.Tracked capacity) (fun _ => hstart)
      (fun _ action _ htracked => Watched.tracked_step htracked action) fun _ _ _ => trivial
  exact (hrun hfew).exactlyOnce

/-- Room for two entries: the second pays more, the third displaces the first, and the reader asks
before and after that. -/
def evictedWhileReading : List (ReaderAction Unit) :=
  [.mutate (.insert tinyEntry), .mutate (.insert { tinyEntry with txId := 2, fee := 3 }), .poll,
    .mutate (.insertWithEviction { tinyEntry with txId := 3, fee := 2 }), .poll]

theorem reader_exact_evictedWhileReading :
    ((watchedSystem 2).run evictedWhileReading).told = [(1, 0), (2, 1), (3, 2)] ∧
      ((watchedSystem 2).run evictedWhileReading).queue.entries.map (·.entry.txId) = [2, 3] ∧
      ((watchedSystem 2).run evictedWhileReading).ExactlyOnce :=
  ⟨by decide +kernel, by decide +kernel, reader_exact 2 evictedWhileReading (by decide +kernel)⟩

/-! ## After the indexes wrap -/

/-- Operations without a poll move the queue as they do without a reader. -/
theorem run_mutations (capacity : Nat) (ops : List (MempoolOp Payload)) :
    ((watchedSystem capacity).run (ops.map .mutate)).queue = (mempoolSystem capacity).run ops ∧
      ((watchedSystem capacity).run (ops.map .mutate)).cursor = Queue.mempoolZeroIdx ∧
      ((watchedSystem capacity).run (ops.map .mutate)).told = [] := by
  induction ops using List.reverseRecOn with
  | nil => exact ⟨rfl, rfl, rfl⟩
  | append_singleton done op ih =>
    have hmutate : ∀ state : Watched Payload, (state.mutate op).queue = state.queue.perform op ∧
        (state.mutate op).cursor = state.cursor ∧ (state.mutate op).told = state.told := by
      intro state
      unfold Watched.mutate
      split <;> exact ⟨rfl, rfl, rfl⟩
    rw [List.map_append, List.map_singleton, TransitionSystem.run_concat,
      TransitionSystem.run_concat]
    obtain ⟨hqueue, hcursor, htold⟩ := hmutate ((watchedSystem capacity).run (done.map .mutate))
    exact ⟨hqueue.trans (congrArg (Queue.perform · op) ih.1), hcursor.trans ih.2.1,
      htold.trans ih.2.2⟩

/-- So many insertions and removals that the index wraps, and one more insertion. -/
def wrappingOps : List (MempoolOp Unit) :=
  churn (2 ^ 63 - 1) ++ [.insert tinyEntry] ++ [.popBest] ++ [.insert tinyEntry]

theorem run_wrappingOps :
    (mempoolSystem 0).run wrappingOps = (idleQueue (-(2 ^ 63))).push tinyEntry 1 := by
  have hstep : (mempoolSystem 0).step = (Queue.perform : Queue Unit → _) := rfl
  have hwraps : Queue.succIdx ((2 ^ 63 - 1 : Nat) : Int) = -(2 ^ 63) := by decide
  rw [wrappingOps, TransitionSystem.run_concat, TransitionSystem.run_concat,
    run_churn_insert (by norm_num), hstep, popBest_push_idleQueue, insert_idleQueue, hwraps]

/-- The entry whose insertion comes after `2 ^ 63` others is resident, and a poll by a reader that
has seen nothing does not return it. -/
theorem wrapped_index_not_reported :
    ¬ ((watchedSystem 0).run (wrappingOps.map .mutate)).ExactlyOnce := by
  intro hexact
  obtain ⟨hqueue, hcursor, htold⟩ := run_mutations 0 wrappingOps
  rw [run_wrappingOps] at hqueue
  have hall := hexact.all
  rw [hqueue] at hall
  have htiny := hall ((idleQueue (-(2 ^ 63))).nextEntry tinyEntry)
    (Queue.mem_push.mpr (.inl rfl))
  have hreply : ((watchedSystem 0).run (wrappingOps.map .mutate)).reply = [] := by
    rw [Watched.reply, hqueue, hcursor]
    rfl
  rw [Watched.poll, htold, hreply] at htiny
  exact absurd htiny List.not_mem_nil

end Yggdrasil.Consensus.Mempool
