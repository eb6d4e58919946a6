import Yggdrasil.Storage.RecoveryRuns

/-!
# Where a rollback ends

`ChainDb::rollback_to` acts on three stores: the volatile blocks are cut at the target, the
immutable ones are left alone, and the snapshots newer than the target are deleted.  The last of
these can fail, since the file-backed ledger store removes files, and then the volatile blocks are
gone already.  `rollbackToWith` is the call with that outcome as a parameter; where the deletion
succeeds it is `rollbackTo` (`rollbackToWith_none`).

A rollback is asked to make its target the tip, or to change nothing.  `reachesTarget_iff` says
when it does: a target that only the immutable store holds is reached if it is the immutable tip,
and a failed deletion is harmless if there was nothing to cut.
-/

namespace Yggdrasil.Storage

open Ledger

variable {Body Data : Type}

namespace ChainDb

/-- What a rollback does to the volatile store. -/
def rollbackVolatile (db : ChainDb Body Data) (point : Point) :
    Except StorageError (ChainDb Body Data) :=
  match point with
  | .origin => .ok { db with volatile := db.volatile.rollbackTo .origin }
  | .blockPoint slot hash =>
    if (db.volatile.getBlock hash).isSome then
      .ok { db with volatile := db.volatile.rollbackTo (.blockPoint slot hash) }
    else if (db.immutable.getBlock hash).isSome then
      .ok { db with volatile := db.volatile.rollbackTo .origin }
    else .error .pointNotFound

/-- A rollback whose deletion of snapshots fails with `failure`, if there is one.  A failed
deletion leaves the snapshots the store serves as they are. -/
def rollbackToWith (failure : Option StorageError) (db : ChainDb Body Data) (point : Point) :
    Except StorageError Unit × ChainDb Body Data :=
  match db.rollbackVolatile point with
  | .error reason => (.error reason, db)
  | .ok cut =>
    match failure with
    | some reason => (.error reason, cut)
    | none => (.ok (), cut.truncateLedgerCheckpointsAfterPoint point)

theorem rollbackToWith_none (db : ChainDb Body Data) (point : Point) :
    db.rollbackToWith none point = match db.rollbackTo point with
      | .ok next => (.ok (), next)
      | .error reason => (.error reason, db) := by
  cases point with
  | origin => rfl
  | blockPoint slot hash =>
    unfold rollbackToWith rollbackVolatile rollbackTo
    dsimp only
    split_ifs <;> rfl

end ChainDb

/-! ## The purpose of a rollback -/

/-- The stores hold parts of one chain and nothing else.  The volatile part may overlap the
immutable one or extend it. -/
structure OneChain (db : ChainDb Body Data) (chain : List (Block Body)) : Prop where
  immutable : db.immutable.blocks <:+: chain
  volatile : db.volatile.blocks <:+: chain
  covered : ∀ block ∈ chain, block ∈ db.immutable.blocks ∨ block ∈ db.volatile.blocks
  distinct : (chain.map blockHash).Nodup

/-- The origin, or the point of a block of the chain. -/
def OnChain (chain : List (Block Body)) (point : Point) : Prop :=
  point = .origin ∨ ∃ block ∈ chain, block.point = point

/-- A snapshot's slot is not after the point.  No snapshot is at or before the origin. -/
def AtOrBefore (point : Point) (slot : SlotNo) : Prop :=
  match point with
  | .origin => False
  | .blockPoint limit _ => slot ≤ limit

/-- A successful rollback has made its target the tip and has left no later snapshot; a failed
one has changed nothing. -/
def ReachesTarget (failure : Option StorageError) (db : ChainDb Body Data) (point : Point) : Prop :=
  match db.rollbackToWith failure point with
  | (.ok (), next) =>
    next.tip = point ∧ ∀ snapshot ∈ next.ledger.snapshots, AtOrBefore point snapshot.1
  | (.error _, next) => next = db

section

variable {db : ChainDb Body Data} {chain : List (Block Body)}

/-- On one chain a volatile hash is the hash of a volatile block. -/
theorem OneChain.mem_volatile (hone : OneChain db chain) {block : Block Body}
    (hblock : block ∈ chain) (hhash : block.header.hash ∈ db.volatile.blocks.map blockHash) :
    block ∈ db.volatile.blocks := by
  obtain ⟨other, hother, hsame⟩ := List.mem_map.mp hhash
  have hequal : other = block := List.inj_on_of_nodup_map hone.distinct
    (hone.volatile.subset hother) hblock hsame
  exact hequal ▸ hother

theorem OneChain.volatile_distinct (hone : OneChain db chain) :
    (db.volatile.blocks.map blockHash).Nodup :=
  hone.distinct.sublist (hone.volatile.sublist.map blockHash)

/-- Truncation keeps only the snapshots at or before the target. -/
theorem atOrBefore_of_truncated (point : Point) {snapshot : SlotNo × Data}
    (hmem : snapshot ∈ (db.truncateLedgerCheckpointsAfterPoint point).ledger.snapshots) :
    AtOrBefore point snapshot.1 := by
  cases point with
  | origin => exact absurd hmem List.not_mem_nil
  | blockPoint limit hash =>
    obtain ⟨_, hslot⟩ := List.mem_filter.mp hmem
    simpa [AtOrBefore] using hslot

theorem tip_of_volatile_concat {before : List (Block Body)} {block : Block Body}
    (hblocks : db.volatile.blocks = before ++ [block]) : db.tip = block.point := by
  have htip : db.volatile.tip = block.point := by
    rw [InMemoryVolatile.tip, hblocks, tipOf_append_singleton]
  have hne : db.volatile.tip ≠ .origin := by
    rw [htip]
    exact Point.noConfusion
  rw [ChainDb.tip, if_neg hne, htip]

/-! ## The three places a target can be -/

/-- What the volatile part of a rollback makes of the stores, by where the target is. -/
inductive Cut (db : ChainDb Body Data) (point : Point) : ChainDb Body Data → Prop
  /-- A volatile block: the blocks up to it stay. -/
  | kept (before after : List (Block Body)) (block : Block Body) (hpoint : block.point = point)
      (hblocks : db.volatile.blocks = before ++ block :: after) :
      Cut db point { db with volatile := { blocks := before ++ [block] } }
  /-- The origin, or a block only the immutable store has: nothing volatile stays. -/
  | cleared (hpoint : ∀ block ∈ db.volatile.blocks, block.point ≠ point) :
      Cut db point { db with volatile := { blocks := [] } }

variable {point : Point}

theorem OneChain.rollbackVolatile (hone : OneChain db chain) (hpoint : OnChain chain point) :
    ∃ cut, db.rollbackVolatile point = .ok cut ∧ Cut db point cut := by
  rcases hpoint with rfl | ⟨block, hblock, rfl⟩
  · exact ⟨_, rfl, .cleared fun block _ => Point.noConfusion⟩
  · by_cases hhash : block.header.hash ∈ db.volatile.blocks.map blockHash
    · have hmem : block ∈ db.volatile.blocks := hone.mem_volatile hblock hhash
      obtain ⟨before, after, hblocks⟩ := List.append_of_mem hmem
      have hfound : (db.volatile.getBlock block.header.hash).isSome = true :=
        (find?_hasHash_isSome_iff _ _).mpr hhash
      have hkept := InMemoryVolatile.rollbackTo_point hblocks hone.volatile_distinct
      refine ⟨_, ?_, .kept before after block rfl hblocks⟩
      rw [← hkept]
      exact if_pos hfound
    · have hnone : ¬ (db.volatile.getBlock block.header.hash).isSome = true := fun hsome =>
        hhash ((find?_hasHash_isSome_iff _ _).mp hsome)
      have himmutable : block ∈ db.immutable.blocks :=
        (hone.covered block hblock).resolve_right fun hmem =>
          hhash (List.mem_map_of_mem hmem)
      have hsome : (db.immutable.getBlock block.header.hash).isSome = true :=
        (find?_hasHash_isSome_iff _ _).mpr (List.mem_map_of_mem himmutable)
      refine ⟨_, (if_neg hnone).trans (if_pos hsome), .cleared fun other hother hsame => ?_⟩
      have hhashes : other.header.hash = block.header.hash := by
        simp only [Block.point, Point.blockPoint.injEq] at hsame
        exact hsame.2
      exact hhash (List.mem_map.mpr ⟨other, hother, hhashes⟩)

theorem exists_point_eq_tip {store : InMemoryVolatile Body} (hnonempty : store.blocks ≠ []) :
    ∃ block ∈ store.blocks, block.point = store.tip := by
  obtain ⟨front, last, hblocks⟩ := (List.eq_nil_or_concat store.blocks).resolve_left hnonempty
  rw [List.concat_eq_append] at hblocks
  refine ⟨last, by simp [hblocks], ?_⟩
  rw [InMemoryVolatile.tip, hblocks, tipOf_append_singleton]

/-- Nothing was cut exactly if there were no volatile blocks or the target was their tip. -/
theorem Cut.eq_iff {cut : ChainDb Body Data} (hcut : Cut db point cut)
    (hdistinct : (db.volatile.blocks.map blockHash).Nodup) :
    cut = db ↔ db.volatile.blocks = [] ∨ db.volatile.tip = point := by
  have hvolatile : ∀ blocks : List (Block Body),
      { db with volatile := { blocks } } = db ↔ blocks = db.volatile.blocks := by
    intro blocks
    refine ⟨fun hsame => congrArg (fun other => other.volatile.blocks) hsame, ?_⟩
    rintro rfl
    rfl
  cases hcut with
  | kept before after block hpoint hblocks =>
    rw [hvolatile, InMemoryVolatile.tip, hblocks, ← hpoint]
    rcases List.eq_nil_or_concat after with rfl | ⟨between, last, rfl⟩
    · simp [tipOf_append_singleton]
    · -- a block is cut, and the old tip was another block
      rw [List.concat_eq_append] at hblocks ⊢
      have hne : last.point ≠ block.point := by
        intro hsame
        simp only [Block.point, Point.blockPoint.injEq] at hsame
        have hsplit : db.volatile.blocks = (before ++ block :: between) ++ last :: [] := by
          rw [hblocks, List.append_assoc, List.cons_append]
        rw [hsplit] at hdistinct
        exact hash_ne_of_mem_before hdistinct (by simp) hsame.2.symm
      have htip : tipOf (before ++ block :: (between ++ [last])) = last.point := by
        rw [← List.cons_append, ← List.append_assoc, tipOf_append_singleton]
      rw [htip]
      simp [hne]
  | cleared hpoint =>
    rw [hvolatile]
    refine ⟨fun hnil => .inl hnil.symm, ?_⟩
    rintro (hnil | htip)
    · exact hnil.symm
    · by_contra hnonempty
      obtain ⟨block, hmem, hblock⟩ := exists_point_eq_tip fun hnil => hnonempty hnil.symm
      exact hpoint block hmem (hblock.trans htip)

/-- The target becomes the tip exactly if a volatile block has it or it is the immutable tip. -/
theorem Cut.tip_iff {cut : ChainDb Body Data} (hcut : Cut db point cut) :
    (cut.truncateLedgerCheckpointsAfterPoint point).tip = point ↔
      (∃ block ∈ db.volatile.blocks, block.point = point) ∨ db.immutable.getTip = point := by
  cases hcut with
  | kept before after block hpoint hblocks =>
    refine iff_of_true ?_ (.inl ⟨block, by simp [hblocks], hpoint⟩)
    rw [tip_of_volatile_concat rfl, hpoint]
  | cleared hpoint =>
    have hnone : ¬ ∃ block ∈ db.volatile.blocks, block.point = point := by
      rintro ⟨block, hmem, hsame⟩
      exact hpoint block hmem hsame
    rw [or_iff_right hnone]
    rfl

/-- **Where a rollback reaches its target.**  With the snapshots deleted, exactly if the target
is a volatile block or the immutable tip; with a failed deletion, exactly if there was no volatile
block to cut. -/
theorem reachesTarget_iff (hone : OneChain db chain) {point : Point} (hpoint : OnChain chain point)
    (failure : Option StorageError) :
    ReachesTarget failure db point ↔
      match failure with
      | none => (∃ block ∈ db.volatile.blocks, block.point = point) ∨ db.immutable.getTip = point
      | some _ => db.volatile.blocks = [] ∨ db.volatile.tip = point := by
  obtain ⟨cut, hrollback, hcut⟩ := hone.rollbackVolatile hpoint
  cases failure with
  | none =>
    rw [ReachesTarget, ChainDb.rollbackToWith, hrollback]
    exact (and_iff_left fun snapshot hmem => atOrBefore_of_truncated point hmem).trans hcut.tip_iff
  | some reason =>
    rw [ReachesTarget, ChainDb.rollbackToWith, hrollback]
    exact hcut.eq_iff hone.volatile_distinct

end

/-! ## A promoted chain -/

/-- Block number `number` of a small chain. -/
def numberedBlock (number : UInt64) : Block Unit where
  header := { hash := BitVec.ofNat _ number.toNat, prevHash := BitVec.ofNat _ (number.toNat - 1),
              slotNo := number, blockNo := number }
  body := ()

def smallChain : List (Block Unit) := [1, 2, 3, 4].map numberedBlock

/-- The chain with its first two blocks promoted. -/
def promotedDb : ChainDb Unit Unit where
  immutable := { blocks := smallChain.take 2 }
  volatile := { blocks := smallChain.drop 2 }
  ledger := { snapshots := [(1, ()), (2, ())] }

theorem promotedDb_oneChain : OneChain promotedDb smallChain where
  immutable := (List.take_prefix 2 smallChain).isInfix
  volatile := (List.drop_suffix 2 smallChain).isInfix
  covered block hblock := by
    rw [← List.mem_append]
    exact (List.take_append_drop 2 smallChain).symm ▸ hblock
  distinct := by decide

/-- A rollback to the first volatile block cuts the second and makes the first the tip. -/
theorem promotedDb_reaches_volatile :
    promotedDb.tip = (numberedBlock 4).point ∧
      ReachesTarget none promotedDb (numberedBlock 3).point :=
  ⟨by decide, (reachesTarget_iff promotedDb_oneChain (.inr ⟨numberedBlock 3, by decide, rfl⟩)
    none).mpr (.inl ⟨numberedBlock 3, by decide, rfl⟩)⟩

/-- A rollback to the first block, or to the origin, reports success and stops at the second block,
the immutable tip; and where the deletion of snapshots fails, the volatile blocks are gone. -/
theorem promotedDb_misses_target :
    OneChain promotedDb smallChain ∧
      OnChain smallChain (numberedBlock 1).point ∧
      (promotedDb.rollbackToWith none (numberedBlock 1).point).1 = .ok () ∧
      (promotedDb.rollbackToWith none (numberedBlock 1).point).2.tip = (numberedBlock 2).point ∧
      ¬ ReachesTarget none promotedDb (numberedBlock 1).point ∧
      ¬ ReachesTarget none promotedDb .origin ∧
      ¬ ReachesTarget (some .io) promotedDb (numberedBlock 2).point := by
  refine ⟨promotedDb_oneChain, .inr ⟨numberedBlock 1, by decide, rfl⟩, rfl, by decide, ?_, ?_, ?_⟩
  · exact fun hreached => absurd hreached.1 (by decide)
  · exact fun hreached => absurd hreached.1 (by decide)
  · exact fun hunchanged =>
      absurd (congrArg (fun other => other.volatile.blocks) hunchanged)
        (by decide)

end Yggdrasil.Storage
