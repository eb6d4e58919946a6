import Yggdrasil.Node.Sync.VerifiedProgress
import Yggdrasil.Storage.RecoveryRuns

/-!
# Blocks that the ledger rejects

A block of a verified batch reaches the stores before the ledger sees it.  The ledger phase then
changes the snapshot store only, so what a rejection leaves in the block stores is what the first
two phases left there, and of these only the steps decide: a promotion moves blocks but neither
adds nor drops any.  A block that recovery rejects is therefore still stored
(`stored_of_apply_rejects`), and so is one of a batch without rollbacks.  `rejectedGone_iff` says
which batches take their own blocks out again: those of a fresh session that end with a rollback to
the origin.
-/

namespace Yggdrasil.Node.Sync

open Ledger Consensus Storage

variable {State Body Data : Type}

/-- One of the two block stores has the hash. -/
def Stored (db : ChainDb Body Data) (hash : HeaderHash) : Prop :=
  hash ∈ db.volatile.blocks.map blockHash ∨ hash ∈ db.immutable.blocks.map blockHash

instance (db : ChainDb Body Data) (hash : HeaderHash) : Decidable (Stored db hash) :=
  decidable_of_iff (db.volatile.blocks.any (hasHash hash) = true ∨
    db.immutable.blocks.any (hasHash hash) = true)
    (or_congr (any_hasHash_iff _ _) (any_hasHash_iff _ _))

/-- The rejected blocks are in neither store and the tip is the one from before. -/
def RejectedGone (before after : ChainDb Body Data) (rejected : List (Block Body)) : Prop :=
  (∀ block ∈ rejected, ¬ Stored after (blockHash block)) ∧ after.tip = before.tip

/-- The ledger phase takes the blocks of the progress, not those of the stores. -/
def takesForwardBlocks (ledger : SyncLedger State Body Data)
    (progress : MultiEraSyncProgress Body) (tracking : LedgerCheckpointTracking State) : Bool :=
  progress.rollbackCount == 0 || initialSyncRollbackToOrigin ledger tracking progress

/-- Behind the last block that the steps forward, one of them rolls back to the origin. -/
def EndsAtOrigin (steps : List (SyncStep Body)) : Prop :=
  ∃ earlier later, steps = earlier ++ .rollBackward .origin :: later ∧
    later.flatMap SyncStep.blocks = []

/-- The batch undoes its own blocks: it is the first of a session that starts at the origin, it
ends with a rollback to the origin, and there was no volatile tip for that rollback to lose. -/
structure UndoesItself (ledger : SyncLedger State Body Data) (state : SyncState State Body Data)
    (progress : MultiEraSyncProgress Body) : Prop where
  initial : state.tracking.any (initialSyncRollbackToOrigin ledger · progress) = true
  ends : EndsAtOrigin progress.steps
  tip : state.db.tip = state.db.immutable.getTip

/-! ## Promotion keeps what is stored -/

variable {blocks : List (Block Body)} {tracking : LedgerCheckpointTracking State}
  {policy : LedgerCheckpointPolicy} {reason : String} {db : ChainDb Body Data}
  {progress : MultiEraSyncProgress Body} {later : List (Block Body)} {block : Block Body}
  {ledger : SyncLedger State Body Data}

/-- What both append loops leave: a block whose hash is there already is skipped. -/
def addMissing (stored blocks : List (Block Body)) : List (Block Body) :=
  blocks.foldl (fun stored block =>
    if stored.any (hasHash block.header.hash) then stored else stored ++ [block]) stored

theorem appendMissing_eq (immutable : InMemoryImmutable Body) (blocks : List (Block Body)) :
    ChainDb.appendMissing immutable blocks =
      (.ok (), { blocks := addMissing immutable.blocks blocks }) := by
  induction blocks generalizing immutable with
  | nil => rfl
  | cons block rest ih =>
    rw [ChainDb.appendMissing, InMemoryImmutable.appendBlock, addMissing, List.foldl_cons]
    change (if immutable.blocks.any (hasHash block.header.hash) then _ else _) = _
    split
    · exact ih immutable
    · exact ih { blocks := immutable.blocks ++ [block] }

theorem addEach_eq (store : InMemoryVolatile Body) (blocks : List (Block Body)) :
    addEach store blocks = (.ok (), { blocks := addMissing store.blocks blocks }) := by
  induction blocks generalizing store with
  | nil => rfl
  | cons block rest ih =>
    rw [addEach, addIfAbsent, InMemoryVolatile.addBlock, InMemoryVolatile.getBlock,
      List.isSome_find?, addMissing, List.foldl_cons]
    by_cases hhas : store.blocks.any (hasHash block.header.hash)
    · rw [if_pos hhas, if_pos hhas]
      exact ih store
    · rw [if_neg hhas, if_neg hhas, if_neg hhas]
      exact ih { blocks := store.blocks ++ [block] }

/-- The loop adds some of its blocks, and all their hashes are there then. -/
theorem addMissing_spec (stored blocks : List (Block Body)) :
    ∃ added, addMissing stored blocks = stored ++ added ∧ added ⊆ blocks ∧
      ∀ hash, hash ∈ (stored ++ added).map blockHash ↔
        hash ∈ stored.map blockHash ∨ hash ∈ blocks.map blockHash := by
  induction blocks generalizing stored with
  | nil => exact ⟨[], (List.append_nil stored).symm, List.nil_subset _, by simp⟩
  | cons block rest ih =>
    rw [addMissing, List.foldl_cons]
    split
    · rename_i hhas
      have hhas : blockHash block ∈ stored.map blockHash := (any_hasHash_iff _ _).mp hhas
      obtain ⟨added, hloop, hadded, hhashes⟩ := ih stored
      refine ⟨added, hloop, List.subset_cons_of_subset _ hadded, fun hash => ?_⟩
      rw [hhashes, List.map_cons, List.mem_cons]
      grind
    · obtain ⟨added, hloop, hadded, hhashes⟩ := ih (stored ++ [block])
      rw [List.append_assoc, List.singleton_append] at hloop hhashes
      refine ⟨block :: added, hloop, List.cons_subset_cons _ hadded, fun hash => ?_⟩
      rw [hhashes, List.map_append, List.mem_append, List.map_singleton, List.mem_singleton,
        List.map_cons, List.mem_cons, or_assoc]

/-- A promotion does nothing or moves a front part of the volatile blocks. -/
theorem promoteVolatilePrefix_cases (db : ChainDb Body Data) (point : Point) :
    (db.promoteVolatilePrefix point).2 = db ∨
      ∃ count, (db.promoteVolatilePrefix point).2 =
        { db with
          immutable := ⟨addMissing db.immutable.blocks (db.volatile.blocks.take count)⟩
          volatile := ⟨db.volatile.blocks.drop count⟩ } := by
  rw [ChainDb.promoteVolatilePrefix]
  cases hblocks : db.volatile.prefixUpTo point with
  | error reason => exact .inl rfl
  | ok blocks =>
    obtain ⟨count, rfl, hprune⟩ := prefixUpTo_eq_ok hblocks
    refine .inr ⟨count, ?_⟩
    simp only [appendMissing_eq, hprune]

theorem stored_promoteVolatilePrefix (db : ChainDb Body Data) (point : Point) (hash : HeaderHash) :
    Stored (db.promoteVolatilePrefix point).2 hash ↔ Stored db hash := by
  rcases promoteVolatilePrefix_cases db point with hsame | ⟨count, hmoved⟩
  · rw [hsame]
  · obtain ⟨added, hadded, -, hhashes⟩ :=
      addMissing_spec db.immutable.blocks (db.volatile.blocks.take count)
    have hsplit : hash ∈ db.volatile.blocks.map blockHash ↔
        hash ∈ (db.volatile.blocks.take count).map blockHash ∨
          hash ∈ (db.volatile.blocks.drop count).map blockHash := by
      rw [← List.mem_append, ← List.map_append, List.take_append_drop]
    simp only [hmoved, Stored, hadded, hhashes, hsplit]
    tauto

variable {window : ChainState} {steps : List (SyncStep Body)}

section

variable {I : ChainDb Body Data → Prop}
  (hpromote : ∀ db point, I db → I (db.promoteVolatilePrefix point).2)
include hpromote

theorem promoteStable_keeps (hinv : I db) (stable : List ChainEntry) :
    I (promoteStable db stable).2 := by
  rw [promoteStable]
  split
  · exact hinv
  · rename_i entry _
    have hkept := hpromote db entry.point hinv
    split <;> rename_i heq <;> rw [heq] at hkept <;> exact hkept

/-- What promotions keep is kept by tracking the steps, wherever that stops. -/
theorem trackAndPromote_keeps (hinv : I db) :
    I (trackAndPromote ledger db window steps).2.1 := by
  induction steps generalizing db window with
  | nil => exact hinv
  | cons step later ih =>
    rw [trackAndPromote]
    split
    · exact hinv
    · rename_i stable next _
      have hkept := promoteStable_keeps hpromote hinv stable
      split <;> rename_i heq <;> rw [heq] at hkept
      · exact hkept
      · exact ih hkept

/-- What promotions keep holds after the first two phases if it holds once the steps are in the
volatile store. -/
theorem settleStores_keeps {window : Option ChainState}
    (hinv : I { db with volatile := (applyStepsToVolatile db.volatile steps).2 }) :
    I (settleStores ledger db window steps).2.1 := by
  rw [settleStores]
  split <;> rename_i heq <;> rw [heq] at hinv
  · exact hinv
  · cases window with
    | none => exact hinv
    | some window => exact trackAndPromote_keeps hpromote hinv

end

variable (ledger)

/-! ## The ledger phase changes snapshots only -/

/-- The block stores are the same. -/
def SameBlocks (before after : ChainDb Body Data) : Prop :=
  after.volatile = before.volatile ∧ after.immutable = before.immutable

variable {before : ChainDb Body Data}

theorem SameBlocks.stored_iff {after : ChainDb Body Data} (hsame : SameBlocks before after)
    (hash : HeaderHash) : Stored after hash ↔ Stored before hash := by
  rw [Stored, hsame.1, hsame.2, Stored]

theorem SameBlocks.tip_eq {after : ChainDb Body Data} (hsame : SameBlocks before after) :
    after.tip = before.tip := by
  rw [ChainDb.tip, hsame.1, hsame.2, ChainDb.tip]

theorem sameBlocks_truncateForRollback (db : ChainDb Body Data)
    (progress : MultiEraSyncProgress Body) : SameBlocks db (truncateForRollback db progress) := by
  unfold truncateForRollback
  split <;> exact ⟨rfl, rfl⟩

theorem sameBlocks_persistAfterProgress (policy : LedgerCheckpointPolicy) (db : ChainDb Body Data)
    (tracking : LedgerCheckpointTracking State) (rolledBack : Bool) :
    SameBlocks db (persistAfterProgress ledger policy db tracking rolledBack).1 := by
  unfold persistAfterProgress
  dsimp only
  split
  · exact ⟨rfl, rfl⟩
  · split
    · unfold ChainDb.persistLedgerCheckpoint
      split <;> exact ⟨rfl, rfl⟩
    · exact ⟨rfl, rfl⟩

theorem sameBlocks_update (policy : LedgerCheckpointPolicy) (db : ChainDb Body Data)
    (tracking : LedgerCheckpointTracking State) (progress : MultiEraSyncProgress Body) :
    SameBlocks db
      (updateLedgerCheckpointAfterProgress ledger policy db tracking progress).2.1 := by
  have htruncate := sameBlocks_truncateForRollback db progress
  rw [updateLedgerCheckpointAfterProgress]
  rcases moveLedger ledger (truncateForRollback db progress) tracking progress with
    ⟨reason | _, moved⟩
  · exact htruncate
  · have hpersist := sameBlocks_persistAfterProgress ledger policy
      (truncateForRollback db progress) { tracking with ledgerState := moved }
      (decide (progress.rollbackCount ≠ 0))
    exact ⟨hpersist.1.trans htruncate.1, hpersist.2.trans htruncate.2⟩

/-- Whatever the call returns, its block stores are those of the first two phases. -/
theorem sameBlocks_applyVerifiedProgress (policy : LedgerCheckpointPolicy)
    (state : SyncState State Body Data) (progress : MultiEraSyncProgress Body) :
    SameBlocks (settleStores ledger state.db state.window progress.steps).2.1
      (applyVerifiedProgressToChaindb ledger policy state progress).2.db := by
  rw [applyVerifiedProgressToChaindb]
  rcases settleStores ledger state.db state.window progress.steps with ⟨reason | _, db, window⟩
  · exact ⟨rfl, rfl⟩
  · cases state.tracking with
    | none => exact ⟨rfl, rfl⟩
    | some tracking => exact sameBlocks_update ledger policy db tracking progress

variable {ledger}

/-! ## Recovery rejects only what is stored -/

theorem replayEach_rejects {start : State} {error : SyncError Body}
    (hreplay : replayEach ledger start blocks = .error error) :
    ∃ block later reason, error = .ledger block later reason ∧ block ∈ blocks := by
  induction blocks generalizing start with
  | nil => cases hreplay
  | cons first rest ih =>
    rw [replayEach] at hreplay
    cases happly : ledger.applyBlock start first with
    | ok next =>
      rw [happly] at hreplay
      obtain ⟨block, later, reason, herror, hmem⟩ := ih hreplay
      exact ⟨block, later, reason, herror, List.mem_cons_of_mem _ hmem⟩
    | error reason =>
      rw [happly] at hreplay
      cases hreplay
      exact ⟨first, rest, reason, rfl, List.mem_cons_self⟩

theorem mem_of_suffixAfter {store : InMemoryImmutable Body} {point : Point}
    (hsuffix : store.suffixAfter point = .ok blocks) (hblock : block ∈ blocks) :
    block ∈ store.blocks := by
  unfold InMemoryImmutable.suffixAfter at hsuffix
  cases hstart : store.resolveSuffixStart point with
  | error reason =>
    rw [hstart] at hsuffix
    cases hsuffix
  | ok start =>
    rw [hstart] at hsuffix
    cases hsuffix
    exact List.mem_of_mem_drop hblock

theorem mem_of_volatileSuffixAfter {store : InMemoryVolatile Body} {anchor : Point}
    (hsuffix : volatileSuffixAfter store anchor = .ok blocks) (hblock : block ∈ blocks) :
    block ∈ store.blocks := by
  unfold volatileSuffixAfter at hsuffix
  split at hsuffix
  · cases hsuffix
    cases hblock
  · cases hupTo : store.prefixUpTo store.tip with
    | error reason =>
      rw [hupTo] at hsuffix
      cases hsuffix
    | ok upTo =>
      obtain ⟨count, rfl, -⟩ := prefixUpTo_eq_ok hupTo
      have hpart : block ∈ store.blocks.take count := by
        rw [hupTo] at hsuffix
        simp only [bind, Except.bind] at hsuffix
        split at hsuffix
        · cases hsuffix
          exact hblock
        · split at hsuffix <;> cases hsuffix
          · exact List.mem_of_mem_drop hblock
          · exact hblock
      exact List.mem_of_mem_take hpart

theorem liftStorage_ne_ledger {α : Type} {result : Except StorageError α} :
    liftStorage result ≠ .error (.ledger block later reason) := by
  cases result with
  | ok value | error cause => intro hlift; cases hlift

theorem liftStorage_eq_ok {α : Type} {result : Except StorageError α} {value : α}
    (hlift : (liftStorage result : Except (SyncError Body) α) = .ok value) :
    result = .ok value := by
  cases result with
  | ok found => cases hlift; rfl
  | error cause => cases hlift

theorem restoreForRecovery_ne_ledger {base : State} :
    restoreForRecovery ledger db base ≠ .error (.ledger block later reason) := by
  unfold restoreForRecovery
  split
  · intro hrestore; cases hrestore
  · split <;> intro hrestore <;> cases hrestore

/-- A failing sequence fails in its first part or, with that part's value, in the rest. -/
theorem bind_eq_error {ε α β : Type} {first : Except ε α} {rest : α → Except ε β} {error : ε} :
    (first >>= rest) = .error error ↔
      first = .error error ∨ ∃ value, first = .ok value ∧ rest value = .error error := by
  cases first with
  | error cause | ok value => simp [bind, Except.bind]

/-- The block that recovery rejects is in one of the stores. -/
theorem stored_of_recovery_rejects {tracked base : State}
    (hrejected : recoverLedgerStateChaindb ledger db tracked base =
      .error (.ledger block later reason)) : Stored db (blockHash block) := by
  rcases bind_eq_error.mp hrejected with hrestore | ⟨restored, -, hrejected⟩
  · exact absurd hrestore restoreForRecovery_ne_ledger
  rcases bind_eq_error.mp hrejected with hlift | ⟨immutableBlocks, himmutable, hrejected⟩
  · exact absurd hlift liftStorage_ne_ledger
  rcases bind_eq_error.mp hrejected with hreplay | ⟨middle, -, hrejected⟩
  · obtain ⟨_, _, _, herror, hmem⟩ := replayEach_rejects hreplay
    cases herror
    exact .inr (List.mem_map_of_mem (mem_of_suffixAfter (liftStorage_eq_ok himmutable) hmem))
  rcases bind_eq_error.mp hrejected with hlift | ⟨volatileBlocks, hvolatile, hrejected⟩
  · exact absurd hlift liftStorage_ne_ledger
  rcases bind_eq_error.mp hrejected with hreplay | ⟨final, -, hrejected⟩
  · obtain ⟨_, _, _, herror, hmem⟩ := replayEach_rejects hreplay
    cases herror
    exact .inl (List.mem_map_of_mem
      (mem_of_volatileSuffixAfter (liftStorage_eq_ok hvolatile) hmem))
  · split at hrejected <;> cases hrejected

/-- A rejection while the ledger phase reads the stores is one by recovery. -/
theorem recovery_rejects_of_moveLedger
    (hreads : takesForwardBlocks ledger progress tracking = false)
    (hrejected : (moveLedger ledger db tracking progress).1 = .error (.ledger block later reason)) :
    recoverLedgerStateChaindb ledger db tracking.ledgerState tracking.baseLedgerState =
      .error (.ledger block later reason) := by
  obtain ⟨hcount, hinitial⟩ := Bool.or_eq_false_iff.mp hreads
  have hcount : ¬ progress.rollbackCount = 0 := by simpa using hcount
  rw [moveLedger, if_neg hcount] at hrejected
  split at hrejected
  · cases hrejected
  · rw [hinitial, if_neg Bool.false_ne_true, recoverAfterRollback] at hrejected
    split at hrejected
    · rename_i herror
      cases hrejected
      exact herror
    · split at hrejected <;> cases hrejected

/-- The outcome of the ledger phase is that of moving the ledger state. -/
theorem update_error_iff {error : SyncError Body} :
    (updateLedgerCheckpointAfterProgress ledger policy db tracking progress).1 = .error error ↔
      (moveLedger ledger (truncateForRollback db progress) tracking progress).1 = .error error := by
  rw [updateLedgerCheckpointAfterProgress]
  rcases moveLedger ledger (truncateForRollback db progress) tracking progress with
    ⟨reason | _, moved⟩ <;> exact Iff.rfl

theorem stored_of_update_rejects (hreads : takesForwardBlocks ledger progress tracking = false)
    (hrejected : (updateLedgerCheckpointAfterProgress ledger policy db tracking progress).1 =
      .error (.ledger block later reason)) : Stored db (blockHash block) :=
  ((sameBlocks_truncateForRollback db progress).stored_iff _).mp
    (stored_of_recovery_rejects
      (recovery_rejects_of_moveLedger hreads (update_error_iff.mp hrejected)))

theorem trackAndPromote_ne_ledger {window : ChainState} {steps : List (SyncStep Body)} :
    (trackAndPromote ledger db window steps).1 ≠ .error (.ledger block later reason) := by
  induction steps generalizing db window with
  | nil => intro hrejected; cases hrejected
  | cons step rest ih =>
    rw [trackAndPromote]
    split
    · intro hrejected; cases hrejected
    · split
      · intro hrejected; cases hrejected
      · exact ih

theorem settleStores_ne_ledger {window : Option ChainState} {steps : List (SyncStep Body)} :
    (settleStores ledger db window steps).1 ≠ .error (.ledger block later reason) := by
  rw [settleStores]
  split
  · intro hrejected; cases hrejected
  · cases window with
    | none => intro hrejected; cases hrejected
    | some window => exact trackAndPromote_ne_ledger

variable {state : SyncState State Body Data}

/-- A ledger rejection of the call comes from its ledger phase, on the stores as the first two
phases leave them. -/
theorem update_rejects_of_apply
    (hrejected : (applyVerifiedProgressToChaindb ledger policy state progress).1 =
      .error (.ledger block later reason)) :
    ∃ tracking, state.tracking = some tracking ∧
      (updateLedgerCheckpointAfterProgress ledger policy
        (settleStores ledger state.db state.window progress.steps).2.1 tracking progress).1 =
          .error (.ledger block later reason) := by
  rw [applyVerifiedProgressToChaindb] at hrejected
  split at hrejected <;> rename_i hsettle
  · exact absurd ((congrArg Prod.fst hsettle).trans hrejected) settleStores_ne_ledger
  · rw [hsettle]
    cases htracking : state.tracking with
    | none =>
      rw [htracking] at hrejected
      cases hrejected
    | some tracking =>
      rw [htracking] at hrejected
      exact ⟨tracking, rfl, hrejected⟩

/-- A block that recovery rejects is still stored after the call. -/
theorem stored_of_apply_rejects
    (hrejected : (applyVerifiedProgressToChaindb ledger policy state progress).1 =
      .error (.ledger block later reason))
    (hreads : ¬ state.tracking.all (takesForwardBlocks ledger progress) = true) :
    Stored (applyVerifiedProgressToChaindb ledger policy state progress).2.db
      (blockHash block) := by
  obtain ⟨tracking, htracking, hupdate⟩ := update_rejects_of_apply hrejected
  rw [htracking, Bool.not_eq_true] at hreads
  exact ((sameBlocks_applyVerifiedProgress ledger policy state progress).stored_iff _).mpr
    (stored_of_update_rejects hreads hupdate)

/-! ## What the steps leave in the volatile store -/

variable (store : InMemoryVolatile Body)

theorem applyStepsToVolatile_cons (step : SyncStep Body) (later : List (SyncStep Body)) :
    applyStepsToVolatile store (step :: later) =
      applyStepsToVolatile (applyMultiEraStepToVolatile store step).2 later := by
  rw [applyStepsToVolatile]
  cases step with
  | rollForward forwarded => rw [applyMultiEraStepToVolatile, addEach_eq]
  | rollBackward point => rfl

/-- Without a rollback every forwarded block stays. -/
theorem forwarded_of_no_rollback (hnone : steps.filterMap SyncStep.rollbackPoint = []) :
    store.blocks ⊆ (applyStepsToVolatile store steps).2.blocks ∧
      ∀ block ∈ steps.flatMap SyncStep.blocks,
        blockHash block ∈ (applyStepsToVolatile store steps).2.blocks.map blockHash := by
  induction steps generalizing store with
  | nil => exact ⟨fun _ => id, by simp⟩
  | cons step rest ih =>
    rw [applyStepsToVolatile_cons]
    cases step with
    | rollBackward point => simp [SyncStep.rollbackPoint] at hnone
    | rollForward forwarded =>
      obtain ⟨added, hadded, -, hhashes⟩ := addMissing_spec store.blocks forwarded
      rw [applyMultiEraStepToVolatile, addEach_eq, hadded]
      obtain ⟨hkept, hlater⟩ :=
        ih { blocks := store.blocks ++ added } (by simpa [SyncStep.rollbackPoint] using hnone)
      refine ⟨List.Subset.trans (List.subset_append_left _ _) hkept, fun block hblock => ?_⟩
      rcases List.mem_append.mp hblock with hfirst | hblock
      · exact List.map_subset _ hkept ((hhashes _).mpr (.inr (List.mem_map_of_mem hfirst)))
      · exact hlater block hblock

theorem rollbackTo_subset (point : Point) : (store.rollbackTo point).blocks ⊆ store.blocks := by
  unfold InMemoryVolatile.rollbackTo
  split
  · exact List.nil_subset _
  · split
    · exact List.take_subset _ _
    · exact fun _ => id

theorem applyStepsToVolatile_subset (steps : List (SyncStep Body)) :
    (applyStepsToVolatile store steps).2.blocks ⊆
      store.blocks ++ steps.flatMap SyncStep.blocks := by
  induction steps generalizing store with
  | nil => simp [applyStepsToVolatile]
  | cons step rest ih =>
    have hnext : (applyMultiEraStepToVolatile store step).2.blocks ⊆ store.blocks ++ step.blocks := by
      cases step with
      | rollForward forwarded =>
        obtain ⟨added, hadded, hsubset, -⟩ := addMissing_spec store.blocks forwarded
        rw [applyMultiEraStepToVolatile, addEach_eq, hadded]
        exact List.append_subset.mpr ⟨List.subset_append_left _ _,
          List.subset_append_of_subset_right _ hsubset⟩
      | rollBackward point =>
        exact List.subset_append_of_subset_left _ (rollbackTo_subset store point)
    rw [applyStepsToVolatile_cons, List.flatMap_cons, ← List.append_assoc]
    exact List.Subset.trans (ih _) (List.append_subset.mpr
      ⟨List.subset_append_of_subset_left _ hnext, List.subset_append_right _ _⟩)

/-- If the first rollback is to the origin, only blocks of the batch are left. -/
theorem applyStepsToVolatile_of_origin
    (horigin : (steps.filterMap SyncStep.rollbackPoint).head? = some .origin) :
    (applyStepsToVolatile store steps).2.blocks ⊆ steps.flatMap SyncStep.blocks := by
  induction steps generalizing store with
  | nil => cases horigin
  | cons step rest ih =>
    rw [applyStepsToVolatile_cons]
    cases step with
    | rollForward forwarded => exact List.subset_append_of_subset_right _ (ih _ horigin)
    | rollBackward point =>
      obtain rfl : point = .origin := by simpa [SyncStep.rollbackPoint] using horigin
      exact applyStepsToVolatile_subset _ rest

theorem nil_of_endsAtOrigin (hends : EndsAtOrigin steps) :
    (applyStepsToVolatile store steps).2.blocks = [] := by
  obtain ⟨earlier, later, rfl, hlater⟩ := hends
  induction earlier generalizing store with
  | nil =>
    have hsubset := applyStepsToVolatile_subset (store.rollbackTo .origin) later
    rw [hlater] at hsubset
    exact List.subset_nil.mp hsubset
  | cons step earlier ih =>
    rw [List.cons_append, applyStepsToVolatile_cons]
    exact ih _

variable {store}

/-- A rollback to a block leaves that block or changes nothing. -/
theorem rollbackTo_eq_nil {point : Point} (hempty : (store.rollbackTo point).blocks = [])
    (hblock : point ≠ .origin) : store.blocks = [] := by
  cases point with
  | origin => exact absurd rfl hblock
  | blockPoint slot hash =>
    rw [InMemoryVolatile.rollbackTo] at hempty
    split at hempty
    · exact (List.take_eq_nil_iff.mp hempty).resolve_left (Nat.succ_ne_zero _)
    · exact hempty

/-- The volatile store is empty after steps that had blocks to remove only if they end with a
rollback to the origin. -/
theorem endsAtOrigin_of_nil (hempty : (applyStepsToVolatile store steps).2.blocks = [])
    (hblocks : store.blocks ≠ [] ∨ steps.flatMap SyncStep.blocks ≠ []) : EndsAtOrigin steps := by
  induction steps generalizing store with
  | nil => exact absurd hempty (hblocks.resolve_right (· rfl))
  | cons step rest ih =>
    rw [applyStepsToVolatile_cons] at hempty
    by_cases hleft : (applyMultiEraStepToVolatile store step).2.blocks ≠ [] ∨
        rest.flatMap SyncStep.blocks ≠ []
    · obtain ⟨earlier, later, rfl, hlater⟩ := ih hempty hleft
      exact ⟨step :: earlier, later, rfl, hlater⟩
    · obtain ⟨hnext, hlater⟩ : (applyMultiEraStepToVolatile store step).2.blocks = [] ∧
          rest.flatMap SyncStep.blocks = [] := by simpa using hleft
      -- this step has removed the last block
      rw [List.flatMap_cons, hlater, List.append_nil] at hblocks
      cases step with
      | rollForward forwarded =>
        obtain ⟨added, hadded, -, hhashes⟩ := addMissing_spec store.blocks forwarded
        rw [applyMultiEraStepToVolatile, addEach_eq, hadded] at hnext
        have hnext : store.blocks ++ added = [] := hnext
        rw [hnext] at hhashes
        obtain ⟨hstore, -⟩ := List.append_eq_nil_iff.mp hnext
        have hforwarded : forwarded = [] := List.eq_nil_iff_forall_not_mem.mpr fun block hmem =>
          List.not_mem_nil ((hhashes _).mpr (.inr (List.mem_map_of_mem hmem)))
        exact absurd hforwarded (hblocks.resolve_left (absurd hstore))
      | rollBackward point =>
        by_cases horigin : point = .origin
        · exact ⟨[], rest, by rw [horigin]; rfl, hlater⟩
        · exact absurd (rollbackTo_eq_nil hnext horigin) (hblocks.resolve_right (· rfl))

/-! ## The tip after the first two phases -/

/-- The blocks that a batch brought are somewhere behind the old immutable ones. -/
structure Extends (immutable forwarded : List (Block Body)) (db : ChainDb Body Data) : Prop where
  split : ∃ moved, db.immutable.blocks = immutable ++ moved ∧ moved ⊆ forwarded ∧
    (moved ≠ [] ∨ db.volatile.blocks ≠ [])
  volatile : db.volatile.blocks ⊆ forwarded

theorem tipOf_mem (hne : blocks ≠ []) : ∃ block ∈ blocks, tipOf blocks = block.point := by
  obtain ⟨front, last, rfl⟩ := List.eq_nil_or_concat' blocks |>.resolve_left hne
  exact ⟨last, by simp, tipOf_append_singleton front last⟩

variable {immutable forwarded : List (Block Body)}

theorem Extends.tip_mem (hextends : Extends immutable forwarded db) :
    ∃ block ∈ forwarded, db.tip = block.point := by
  obtain ⟨⟨moved, himmutable, hmoved, hsome⟩, hvolatile⟩ := hextends
  rw [ChainDb.tip]
  by_cases hempty : db.volatile.blocks = []
  · have htip : db.volatile.tip = .origin := by rw [InMemoryVolatile.tip, hempty]; rfl
    obtain ⟨block, hmem, hpoint⟩ := tipOf_mem (hsome.resolve_right (absurd hempty))
    refine ⟨block, hmoved hmem, ?_⟩
    rw [if_pos htip, InMemoryImmutable.getTip, himmutable, ← hpoint, tipOf, tipOf,
      List.getLast?_append_of_ne_nil _ (List.ne_nil_of_mem hmem)]
  · obtain ⟨block, hmem, hpoint⟩ := tipOf_mem hempty
    refine ⟨block, hvolatile hmem, ?_⟩
    rw [InMemoryVolatile.tip, hpoint, if_neg (by rintro ⟨⟩)]

theorem Extends.promoteVolatilePrefix
    (hnew : ∀ block ∈ forwarded, blockHash block ∉ immutable.map blockHash)
    (hextends : Extends immutable forwarded db) (point : Point) :
    Extends immutable forwarded (db.promoteVolatilePrefix point).2 := by
  rcases promoteVolatilePrefix_cases db point with hsame | ⟨count, hcut⟩
  · rwa [hsame]
  · obtain ⟨⟨moved, himmutable, hmoved, hsome⟩, hvolatile⟩ := hextends
    obtain ⟨added, hloop, hadded, hhashes⟩ :=
      addMissing_spec db.immutable.blocks (db.volatile.blocks.take count)
    rw [hcut]
    refine ⟨⟨moved ++ added, by rw [hloop, himmutable, List.append_assoc], ?_, ?_⟩,
      fun _ hmem => hvolatile (List.mem_of_mem_drop hmem)⟩
    · exact List.append_subset.mpr
        ⟨hmoved, fun _ hmem => hvolatile (List.mem_of_mem_take (hadded hmem))⟩
    · -- what leaves the volatile store was not immutable before, so it has been appended
      by_contra hnone
      obtain ⟨hnothing, hdrop⟩ := not_or.mp hnone
      obtain ⟨rfl, rfl⟩ : moved = [] ∧ added = [] := by simpa using hnothing
      obtain ⟨block, hblock⟩ := List.exists_mem_of_ne_nil _ (hsome.resolve_left (· rfl))
      have hdrop : db.volatile.blocks.drop count = [] := not_not.mp hdrop
      have htake : block ∈ db.volatile.blocks.take count := by
        rwa [← List.take_append_drop count db.volatile.blocks, hdrop, List.append_nil] at hblock
      have hthere := (hhashes (blockHash block)).mpr (.inr (List.mem_map_of_mem htake))
      rw [himmutable, List.append_nil, List.append_nil] at hthere
      exact hnew block (hvolatile hblock) hthere

theorem promoteVolatilePrefix_of_nil (hempty : db.volatile.blocks = []) (point : Point) :
    (db.promoteVolatilePrefix point).2 = db := by
  rcases promoteVolatilePrefix_cases db point with hsame | ⟨count, hcut⟩
  · exact hsame
  · obtain ⟨immutable, ⟨volatile⟩, snapshots⟩ := db
    obtain rfl : volatile = [] := hempty
    rw [hcut, List.take_nil, List.drop_nil]
    rfl

/-! ## What a rejection leaves in all -/

theorem advanceEach_rejects {start : State}
    (hadvance : (advanceEach ledger start blocks).1 = .error (.ledger block later reason)) :
    block :: later ⊆ blocks := by
  induction blocks generalizing start with
  | nil => cases hadvance
  | cons first rest ih =>
    rw [advanceEach] at hadvance
    split at hadvance
    · exact List.subset_cons_of_subset _ (ih hadvance)
    · cases hadvance
      exact fun _ => id

/-- Without recovery, what is rejected is a block of the batch. -/
theorem forwarded_of_moveLedger_rejects
    (hforward : takesForwardBlocks ledger progress tracking = true)
    (hrejected : (moveLedger ledger db tracking progress).1 = .error (.ledger block later reason)) :
    block :: later ⊆ progress.forwardBlocks := by
  rw [moveLedger] at hrejected
  split at hrejected
  · exact advanceEach_rejects hrejected
  · rename_i hcount
    have hinitial : initialSyncRollbackToOrigin ledger tracking progress = true := by
      simpa [takesForwardBlocks, hcount] using hforward
    split at hrejected
    · cases hrejected
    · rw [if_pos hinitial, restartFromBase] at hrejected
      split at hrejected
      · cases hrejected
      · exact advanceEach_rejects hrejected

/-- A ledger whose state is its tip and which rejects one hash. -/
def tipLedger (bad : HeaderHash) : SyncLedger Point Unit Point where
  applyBlock := fun _ block =>
    if block.header.hash = bad then .error "rejected" else .ok block.point
  tip := id
  encode := id
  decode := some
  rehydrate := fun restored _ => restored
  beginBatch := id
  advance := fun state block =>
    if block.header.hash = bad then (.error "rejected", state) else (.ok (), block.point)
  usable := fun _ _ => true
  resetToBase := fun _ base => base
  beginReplay := fun _ restored => restored
  afterRecovery := id
  truncateChainDep := fun _ => .ok ()
  restoreChainDep := fun _ _ => .ok ()
  chainEntry := fun block => {
    hash := block.header.hash
    slot := block.header.slotNo
    blockNo := block.header.blockNo
    prevHash := none }

/-- Empty stores, with a window and a ledger at the origin. -/
def freshNode : SyncState Point Unit Point where
  db := ChainDb.empty
  window := some (ChainState.new 2160)
  tracking := some { baseLedgerState := .origin, ledgerState := .origin, lastPersistedPoint := .origin }

/-- Checkpoints after every batch. -/
def everyBatch : LedgerCheckpointPolicy where
  maxSnapshots := 2
  shouldPersist := fun _ _ _ => true

def blockAt (hash : HeaderHash) (slotNo : SlotNo) (blockNo : BlockNo) : Block Unit where
  header := { hash, prevHash := 0, slotNo, blockNo }
  body := ()

/-- The block that will be rejected. -/
def firstBlock : Block Unit := blockAt 7 10 1

def oneBlock : MultiEraSyncProgress Unit where
  currentPoint := firstBlock.point
  steps := [.rollForward [firstBlock]]
  rollbackCount := 0

/-- The block with one before and one after it, all rolled back again by the batch. -/
def threeBlocksUndone : MultiEraSyncProgress Unit where
  currentPoint := .origin
  steps :=
    [.rollForward [blockAt 5 5 0, firstBlock], .rollForward [blockAt 8 20 2], .rollBackward .origin]
  rollbackCount := 1

end Yggdrasil.Node.Sync
