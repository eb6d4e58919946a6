import Yggdrasil.Library.Runs
import Yggdrasil.Storage.ChainDb

/-!
# Recovery equals full replay

The purpose of the chain database is one list of blocks, the selected chain: `add_volatile_block`
extends it, `rollback_to` cuts it back, and promotion, its interruption and checkpoints do not
change it.  `Represents` relates the three stores to that list.  An interrupted promotion leaves
blocks in both stores, so the relation allows the end of the immutable store to be repeated at
the beginning of the volatile one.

`recoverLedgerState_eq` says that recovery from any related stores, through any snapshot that is
still decodable, gives the replay of the whole chain from the base state; `recovers_run` carries
this over all runs.
-/

namespace Yggdrasil.Storage

open Ledger Library

variable {State Body Data : Type}

def blockHash (block : Block Body) : HeaderHash := block.header.hash

/-! ## Looking blocks up by hash -/

variable {before after : List (Block Body)} (blocks : List (Block Body))

variable {block : Block Body}

theorem findIdx?_append_cons {p : Block Body → Bool} (hblock : p block = true)
    (hbefore : ∀ other ∈ before, p other = false) :
    (before ++ block :: after).findIdx? p = some before.length := by
  rw [List.findIdx?_append, List.findIdx?_eq_none_iff.mpr hbefore]
  simp [List.findIdx?_cons, hblock]

/-- Blocks before a block of a chain with distinct hashes have other hashes. -/
theorem hash_ne_of_mem_before {other : Block Body}
    (hdistinct : ((before ++ block :: after).map blockHash).Nodup) (hother : other ∈ before) :
    other.header.hash ≠ block.header.hash := by
  intro hsame
  rw [List.map_append, List.nodup_append] at hdistinct
  exact hdistinct.2.2 _ (List.mem_map.mpr ⟨other, hother, rfl⟩) _
    (List.mem_map.mpr ⟨block, List.mem_cons_self, rfl⟩) hsame

/-- Where hashes are distinct, the search by hash finds the block. -/
theorem findIdx?_hasHash (hdistinct : ((before ++ block :: after).map blockHash).Nodup) :
    (before ++ block :: after).findIdx? (hasHash block.header.hash) = some before.length := by
  refine findIdx?_append_cons (by simp [hasHash]) fun other hother => ?_
  simpa [hasHash] using hash_ne_of_mem_before hdistinct hother

theorem findIdx?_hasHash_none {blocks : List (Block Body)} {hash : HeaderHash}
    (habsent : hash ∉ blocks.map blockHash) : blocks.findIdx? (hasHash hash) = none := by
  rw [List.findIdx?_eq_none_iff]
  intro block hblock
  have hother : block.header.hash ≠ hash := fun hsame =>
    habsent (List.mem_map.mpr ⟨block, hblock, hsame⟩)
  simpa [hasHash] using hother

theorem any_hasHash_iff (hash : HeaderHash) :
    blocks.any (hasHash hash) = true ↔ hash ∈ blocks.map blockHash := by
  simp [hasHash, blockHash]

theorem find?_hasHash_isSome_iff (hash : HeaderHash) :
    (blocks.find? (hasHash hash)).isSome = true ↔ hash ∈ blocks.map blockHash := by
  simp [hasHash, blockHash]

theorem tipOf_append_singleton (block : Block Body) : tipOf (blocks ++ [block]) = block.point := by
  simp [tipOf]

theorem tipOf_eq_origin_iff : tipOf blocks = .origin ↔ blocks = [] := by
  rcases List.eq_nil_or_concat blocks with rfl | ⟨front, block, rfl⟩
  · simp [tipOf]
  · simp [tipOf, Block.point]

/-! ## The relation between the stores and the chain -/

/-- The stores hold the chain: the immutable blocks end in `overlap`, the volatile ones begin
with it, and the chain is all of them without the repetition. -/
structure Split (db : ChainDb Body Data) (chain front overlap rest : List (Block Body)) : Prop where
  immutable : db.immutable.blocks = front ++ overlap
  volatile : db.volatile.blocks = overlap ++ rest
  chain : chain = front ++ overlap ++ rest

/-- A snapshot is undecodable, or holds the state after a front part of the chain that ends at
the snapshot's slot. -/
def SnapshotValid (ops : LedgerOps State Body Data) (base : State) (chain : List (Block Body))
    (snapshot : SlotNo × Data) : Prop :=
  ops.decode snapshot.2 = none ∨
    ∃ before block after state, chain = before ++ block :: after ∧
      block.header.slotNo = snapshot.1 ∧ ops.replay base (before ++ [block]) = .ok state ∧
      snapshot.2 = ops.encode state

/-- The stores represent the chain. -/
structure Represents (ops : LedgerOps State Body Data) (base : State) (db : ChainDb Body Data)
    (chain : List (Block Body)) : Prop where
  split : ∃ front overlap rest, Split db chain front overlap rest
  distinct : (chain.map blockHash).Nodup
  increasing : chain.Pairwise fun earlier later => earlier.header.slotNo < later.header.slotNo
  replays : ∃ state, ops.replay base chain = .ok state
  snapshots : ∀ snapshot ∈ db.ledger.snapshots, SnapshotValid ops base chain snapshot

/-- What is taken for granted of the ledger: a base state at the origin, an applied block
becomes the tip, and a checkpoint of a state reached from the base is restored as that state. -/
structure LawfulLedger (ops : LedgerOps State Body Data) (base : State) : Prop where
  tip_base : ops.tip base = .origin
  tip_applyBlock : ∀ state block next, ops.applyBlock state block = .ok next →
    ops.tip next = block.point
  restore_encode : ∀ blocks state, ops.replay base blocks = .ok state →
    ∃ checkpoint, ops.decode (ops.encode state) = some checkpoint ∧
      ops.rehydrate checkpoint base = state

section

variable {ops : LedgerOps State Body Data} {base : State}

theorem replay_append (state : State) (front rest : List (Block Body)) :
    ops.replay state (front ++ rest) =
      (ops.replay state front).bind fun middle => ops.replay middle rest := by
  simp only [LedgerOps.replay, List.foldlM_append]
  rfl

variable {front rest blocks chain overlap remaining upTo : List (Block Body)}

theorem replay_split {state final : State} {front rest : List (Block Body)}
    (hreplay : ops.replay state (front ++ rest) = .ok final) :
    ∃ middle, ops.replay state front = .ok middle ∧ ops.replay middle rest = .ok final := by
  rw [replay_append] at hreplay
  cases hfront : ops.replay state front with
  | error message => simp [hfront, Except.bind] at hreplay
  | ok middle => exact ⟨middle, rfl, by simpa [hfront, Except.bind] using hreplay⟩

theorem tip_replay (hlaw : LawfulLedger ops base) {state : State}
    (hreplay : ops.replay base blocks = .ok state) : ops.tip state = tipOf blocks := by
  rcases List.eq_nil_or_concat blocks with rfl | ⟨front, block, rfl⟩
  · obtain rfl : base = state := by simpa [LedgerOps.replay, pure, Except.pure] using hreplay
    exact hlaw.tip_base
  · rw [List.concat_eq_append] at hreplay ⊢
    obtain ⟨middle, -, hlast⟩ := replay_split hreplay
    rw [tipOf_append_singleton]
    refine hlaw.tip_applyBlock middle block state ?_
    simpa [LedgerOps.replay] using hlast

/-! ## Recovery from related stores -/

variable {chain front overlap rest : List (Block Body)} {db : ChainDb Body Data}

theorem tip_eq_tipOf (hsplit : Split db chain front overlap rest) : db.tip = tipOf chain := by
  unfold ChainDb.tip InMemoryVolatile.tip InMemoryImmutable.getTip
  rw [hsplit.immutable, hsplit.volatile, hsplit.chain]
  by_cases hnone : overlap ++ rest = []
  · rw [List.append_assoc]
    obtain ⟨rfl, rfl⟩ := List.append_eq_nil_iff.mp hnone
    rfl
  · rw [if_neg fun horigin => hnone ((tipOf_eq_origin_iff _).mp horigin), List.append_assoc]
    simp [tipOf, List.getLast?_append_of_ne_nil _ hnone]

theorem volatile_tip_eq_origin_iff (store : InMemoryVolatile Body) :
    store.tip = .origin ↔ store.blocks = [] :=
  tipOf_eq_origin_iff _

theorem prefixUpTo_tip {store : InMemoryVolatile Body} (hnonempty : store.blocks ≠ [])
    (hdistinct : (store.blocks.map blockHash).Nodup) :
    store.prefixUpTo store.tip = .ok store.blocks := by
  obtain ⟨blocks⟩ := store
  rcases List.eq_nil_or_concat blocks with rfl | ⟨front, block, rfl⟩
  · exact absurd rfl hnonempty
  · simp only [List.concat_eq_append] at hdistinct ⊢
    have hfound : (front ++ [block]).findIdx? (hasHash block.header.hash) =
        some front.length := findIdx?_hasHash hdistinct
    simp only [InMemoryVolatile.tip, tipOf_append_singleton, Block.point,
      InMemoryVolatile.prefixUpTo, hfound]
    rw [List.take_of_length_le (by simp)]

theorem findIdx?_point_eq_none {anchor : Block Body}
    (hdistinct : ((anchor :: blocks).map blockHash).Nodup) :
    blocks.findIdx? (fun block => block.point == anchor.point) = none := by
  rw [List.findIdx?_eq_none_iff]
  intro block hblock
  have hother : block.header.hash ≠ anchor.header.hash := by
    rw [List.map_cons, List.nodup_cons] at hdistinct
    intro heq
    exact hdistinct.1 (List.mem_map.mpr ⟨block, hblock, heq⟩)
  simpa [Block.point] using fun _ => hother

/-- The volatile blocks after a point of the chain that is not before the immutable tip are the
blocks of the chain after it. -/
theorem volatileSuffixAfter_eq {done : List (Block Body)}
    (hsplit : Split db chain front overlap (done ++ remaining))
    (hdistinct : (chain.map blockHash).Nodup) :
    volatileSuffixAfter db.volatile (tipOf (front ++ overlap ++ done)) = .ok remaining := by
  have hchain := hsplit.chain
  have hvolatile : db.volatile.blocks = (overlap ++ done) ++ remaining := by
    rw [hsplit.volatile, List.append_assoc]
  have hvolatileDistinct : (db.volatile.blocks.map blockHash).Nodup := by
    rw [hvolatile]
    refine List.Nodup.sublist ?_ hdistinct
    rw [hchain]
    exact List.Sublist.map _ (by simp [List.append_assoc])
  unfold volatileSuffixAfter
  by_cases hempty : db.volatile.blocks = []
  · have hremaining : remaining = [] := by
      rw [hvolatile] at hempty
      exact (List.append_eq_nil_iff.mp hempty).2
    rw [if_pos ((volatile_tip_eq_origin_iff _).mpr hempty), hremaining]
  · rw [if_neg fun horigin => hempty ((volatile_tip_eq_origin_iff _).mp horigin),
      prefixUpTo_tip hempty hvolatileDistinct]
    simp only [bind, Except.bind]
    rcases List.eq_nil_or_concat (overlap ++ done) with hnone | ⟨before, block, hlast⟩
    · -- nothing volatile before the point: it is the origin or an immutable block only
      rw [List.append_assoc, hnone, List.append_nil]
      rw [hnone, List.nil_append] at hvolatile
      split
      · rw [hvolatile]
        rfl
      · rename_i hanchor
        rcases List.eq_nil_or_concat front with rfl | ⟨earlier, anchor, rfl⟩
        · exact absurd rfl hanchor
        · have hwhole : chain = earlier ++ anchor :: db.volatile.blocks := by
            rw [hchain, List.append_assoc, ← List.append_assoc overlap, hnone, List.nil_append,
              ← hvolatile]
            simp
          rw [hwhole, List.map_append, List.nodup_append] at hdistinct
          rw [List.concat_eq_append, tipOf_append_singleton,
            findIdx?_point_eq_none hdistinct.2.1, hvolatile]
          rfl
    · -- the point is the volatile block right before the remaining ones
      rw [List.concat_eq_append] at hlast
      have hanchor : tipOf (front ++ overlap ++ done) = block.point := by
        rw [List.append_assoc, hlast, ← List.append_assoc, tipOf_append_singleton]
      have hfound : db.volatile.blocks.findIdx? (fun other => other.point == block.point) =
          some before.length := by
        rw [hvolatile, hlast] at hvolatileDistinct ⊢
        rw [List.append_assoc] at hvolatileDistinct ⊢
        refine findIdx?_append_cons (by simp) fun other hother => ?_
        have hne := hash_ne_of_mem_before hvolatileDistinct hother
        simpa [Block.point] using fun _ => hne
      rw [hanchor, if_neg (by simp [Block.point]), hfound]
      simp [hvolatile, hlast, pure, Except.pure]

variable {store : InMemoryImmutable Body}

/-- The immutable blocks after a point of the immutable chain. -/
theorem suffixAfter_within {after : List (Block Body)} (hstore : store.blocks = upTo ++ after)
    (hdistinct : (store.blocks.map blockHash).Nodup)
    (hsorted : store.blocks.Pairwise fun a b => a.header.slotNo ≤ b.header.slotNo) :
    store.suffixAfter (tipOf upTo) = .ok after := by
  rcases List.eq_nil_or_concat upTo with rfl | ⟨before, block, rfl⟩
  · simp [InMemoryImmutable.suffixAfter, InMemoryImmutable.resolveSuffixStart, tipOf, hstore,
      Except.map]
  · rw [List.concat_eq_append, List.append_assoc] at hstore
    have hfound : store.blocks.findIdx? (hasHash block.header.hash) = some before.length := by
      rw [hstore] at hdistinct ⊢
      exact findIdx?_hasHash hdistinct
    -- the point's slot is not before the first block
    obtain ⟨first, hfirst, hle⟩ : ∃ first, store.blocks.head? = some first ∧
        ¬ block.header.slotNo < first.header.slotNo := by
      rw [hstore] at hsorted ⊢
      cases before with
      | nil => exact ⟨block, rfl, UInt64.lt_irrefl _⟩
      | cons first before =>
        refine ⟨first, rfl, UInt64.not_lt.mpr ?_⟩
        exact (List.pairwise_cons.mp hsorted).1 block (by simp)
    obtain ⟨last, hlast⟩ : ∃ last, store.blocks.getLast? = some last :=
      Option.isSome_iff_exists.mp (by simp [hstore])
    rw [List.concat_eq_append, tipOf_append_singleton]
    simp only [InMemoryImmutable.suffixAfter, InMemoryImmutable.resolveSuffixStart, Block.point,
      hfirst, hlast, if_neg hle, hfound]
    simp [hstore, Except.map]

/-- No immutable block is after a volatile point of the chain.  The store says so if the slot of the
point is past its own; a point that shares the slot of the immutable tip is not found. -/
theorem suffixAfter_beyond {between : List (Block Body)} {block : Block Body}
    (hdistinct : ((store.blocks ++ between ++ [block]).map blockHash).Nodup)
    (hsorted : (store.blocks ++ between ++ [block]).Pairwise fun a b =>
      a.header.slotNo ≤ b.header.slotNo) :
    store.suffixAfter block.point =
      if ∃ last ∈ store.blocks.getLast?, ¬ last.header.slotNo < block.header.slotNo then
        .error .pointNotFound
      else .ok [] := by
  have hlater : ∀ other ∈ store.blocks, other.header.slotNo ≤ block.header.slotNo := by
    intro other hother
    exact (List.pairwise_append.mp hsorted).2.2 other (List.mem_append_left _ hother) block
      (List.mem_singleton.mpr rfl)
  have habsent : block.header.hash ∉ store.blocks.map blockHash := by
    intro hmem
    obtain ⟨other, hother, hsame⟩ := List.mem_map.mp hmem
    exact hash_ne_of_mem_before hdistinct (List.mem_append_left _ hother) hsame
  simp only [InMemoryImmutable.suffixAfter, InMemoryImmutable.resolveSuffixStart, Block.point,
    findIdx?_hasHash_none habsent]
  cases hfirst : store.blocks.head? with
  | none =>
    have hnone : store.blocks = [] := List.head?_eq_none_iff.mp hfirst
    simp [hnone, Except.map]
  | some first =>
    obtain ⟨last, hlast⟩ : ∃ last, store.blocks.getLast? = some last := by
      rw [← Option.isSome_iff_exists]
      cases hblocks : store.blocks with
      | nil => simp [hblocks] at hfirst
      | cons => simp
    have hafterFirst := UInt64.not_lt.mpr (hlater first (List.mem_of_mem_head? hfirst))
    by_cases hafterLast : last.header.slotNo < block.header.slotNo
    · simp [hlast, hafterFirst, hafterLast, Except.map]
    · simp [hlast, hafterFirst, hafterLast, Except.map]

/-- The immutable store of a chain is asked for a point at which it still holds the blocks after
it, or for a later one. -/
theorem suffixAfter_cases (hstores : store.blocks ++ rest = upTo ++ remaining)
    (hdistinct : ((upTo ++ remaining).map blockHash).Nodup)
    (hsorted : (upTo ++ remaining).Pairwise fun a b => a.header.slotNo ≤ b.header.slotNo) :
    (∃ after, store.blocks = upTo ++ after ∧ remaining = after ++ rest ∧
        store.suffixAfter (tipOf upTo) = .ok after) ∨
      ∃ between block, upTo = store.blocks ++ between ++ [block] ∧
        rest = between ++ [block] ++ remaining ∧
        store.suffixAfter (tipOf upTo) =
          if ∃ last ∈ store.blocks.getLast?, ¬ last.header.slotNo < block.header.slotNo then
            .error .pointNotFound
          else .ok [] := by
  have hwithin : ∀ after, store.blocks = upTo ++ after →
      store.suffixAfter (tipOf upTo) = .ok after := by
    intro after hafter
    rw [← hstores, List.map_append, List.nodup_append] at hdistinct
    rw [← hstores, List.pairwise_append] at hsorted
    exact suffixAfter_within hafter hdistinct.1 hsorted.1
  rcases List.append_eq_append_iff.mp hstores with ⟨done, hupTo, hrest⟩ | ⟨after, hafter, hrest⟩
  · rcases List.eq_nil_or_concat done with rfl | ⟨between, block, rfl⟩
    · have hall : store.blocks = upTo ++ [] := by rw [hupTo, List.append_nil, List.append_nil]
      exact .inl ⟨[], hall, hrest.symm, hwithin [] hall⟩
    · rw [List.concat_eq_append] at hupTo hrest
      rw [← List.append_assoc] at hupTo
      rw [hupTo, List.map_append, List.nodup_append] at hdistinct
      rw [hupTo, List.pairwise_append] at hsorted
      refine .inr ⟨between, block, hupTo, hrest, ?_⟩
      rw [hupTo, tipOf_append_singleton, suffixAfter_beyond hdistinct.1 hsorted.1]
  · exact .inl ⟨after, hafter, hrest, hwithin after hafter⟩

theorem mem_of_snapshotAtCursor {cursor : Option SlotNo} {snapshot : SlotNo × Data}
    (hfound : db.snapshotAtCursor cursor = some snapshot) :
    snapshot ∈ db.ledger.snapshots := by
  cases cursor with
  | none => exact List.mem_of_mem_getLast? hfound
  | some limit => exact (InMemoryLedgerStore.mem_of_latestSnapshotBeforeOrAt hfound).1

/-- The restored state is the replay of a front part of the chain, whichever snapshot it comes
from. -/
theorem tryRestoreCheckpoint_spec (hlaw : LawfulLedger ops base)
    (hsnapshots : ∀ snapshot ∈ db.ledger.snapshots, SnapshotValid ops base chain snapshot)
    (cursor : Option SlotNo) :
    ∃ upTo remaining state slot, chain = upTo ++ remaining ∧
      ops.replay base upTo = .ok state ∧
      db.tryRestoreCheckpoint ops base cursor = (state, slot, tipOf upTo) := by
  have hbase : ∃ upTo remaining state slot, chain = upTo ++ remaining ∧
      ops.replay base upTo = .ok state ∧
      ((base, none, ops.tip base) : State × Option SlotNo × Point) = (state, slot, tipOf upTo) :=
    ⟨[], chain, base, none, rfl, rfl, by rw [hlaw.tip_base]; rfl⟩
  -- the loop moves its cursor strictly down past each undecodable snapshot
  induction hmeasure : ChainDb.cursorMeasure cursor using Nat.strongRecOn
    generalizing cursor with
  | _ measure ih =>
    subst hmeasure
    rw [ChainDb.tryRestoreCheckpoint]
    split
    · exact hbase
    · rename_i slot data hfound
      split
      · rename_i checkpoint hdecode
        rcases hsnapshots _ (mem_of_snapshotAtCursor hfound) with
          hcorrupt | ⟨before, block, after, state, hchain, -, hreplay, hdata⟩
        · rw [hcorrupt] at hdecode
          cases hdecode
        · obtain ⟨restored, hrestored, hrehydrate⟩ := hlaw.restore_encode _ _ hreplay
          obtain rfl : restored = checkpoint := by
            rw [show data = ops.encode state from hdata, hrestored] at hdecode
            exact Option.some.inj hdecode
          refine ⟨before ++ [block], after, state, some slot, by simpa using hchain, hreplay, ?_⟩
          simp only [hrehydrate, tip_replay hlaw hreplay]
      · split
        · exact hbase
        · rename_i hpositive
          exact ih _ (ChainDb.cursorMeasure_decreases hfound hpositive) _ rfl

/-- From the restored point on, the two stores give the rest of the chain, provided that the
immutable one knows the point. -/
theorem recoveryBlocks_of_ok {immutableBlocks : List (Block Body)}
    (hsplit : Split db chain front overlap rest) (hdistinct : (chain.map blockHash).Nodup)
    (hsorted : chain.Pairwise fun a b => a.header.slotNo ≤ b.header.slotNo)
    (hchain : chain = upTo ++ remaining)
    (hknown : db.immutable.suffixAfter (tipOf upTo) = .ok immutableBlocks) :
    ∃ volatileBlocks, remaining = immutableBlocks ++ volatileBlocks ∧
      volatileSuffixAfter db.volatile (ChainDb.replayAnchor immutableBlocks (tipOf upTo)) =
        .ok volatileBlocks := by
  have hstores : db.immutable.blocks ++ rest = upTo ++ remaining := by
    rw [hsplit.immutable, ← hsplit.chain, hchain]
  rcases suffixAfter_cases hstores (hchain ▸ hdistinct) (hchain ▸ hsorted) with
    ⟨after, himmutable, hremaining, hafter⟩ | ⟨between, block, hupTo, hrest, hbeyond⟩
  · -- restored at an immutable block, or from the base
    rw [hafter] at hknown
    obtain rfl := Except.ok.inj hknown
    refine ⟨rest, hremaining, ?_⟩
    have hanchor : ChainDb.replayAnchor after (tipOf upTo) = tipOf (front ++ overlap ++ []) := by
      rw [← hsplit.immutable, himmutable]
      rcases List.eq_nil_or_concat after with rfl | ⟨before, block, rfl⟩
      · simp [ChainDb.replayAnchor]
      · simp [ChainDb.replayAnchor, tipOf]
    rw [hanchor]
    exact volatileSuffixAfter_eq hsplit hdistinct
  · -- restored after the immutable tip
    obtain rfl : immutableBlocks = [] := by
      rw [hbeyond] at hknown
      split at hknown
      · cases hknown
      · exact (Except.ok.inj hknown).symm
    refine ⟨remaining, rfl, ?_⟩
    rw [hupTo, List.append_assoc, hsplit.immutable]
    exact volatileSuffixAfter_eq (hrest ▸ hsplit) hdistinct

/-- Where slots grow strictly, the immutable store knows every point of the chain. -/
theorem suffixAfter_isOk (hsplit : Split db chain front overlap rest)
    (hdistinct : (chain.map blockHash).Nodup)
    (hincreasing : chain.Pairwise fun a b => a.header.slotNo < b.header.slotNo)
    (hchain : chain = upTo ++ remaining) :
    ∃ immutableBlocks, db.immutable.suffixAfter (tipOf upTo) = .ok immutableBlocks := by
  have hstores : db.immutable.blocks ++ rest = upTo ++ remaining := by
    rw [hsplit.immutable, ← hsplit.chain, hchain]
  rcases suffixAfter_cases hstores (hchain ▸ hdistinct)
    (hchain ▸ hincreasing.imp UInt64.le_of_lt) with
    ⟨after, -, -, hafter⟩ | ⟨between, block, rfl, -, hbeyond⟩
  · exact ⟨after, hafter⟩
  · refine ⟨[], ?_⟩
    rw [hbeyond, if_neg]
    rintro ⟨last, hlast, hnotBefore⟩
    rw [hchain, List.append_assoc, List.append_assoc] at hincreasing
    refine hnotBefore ((List.pairwise_append.mp hincreasing).2.2 last
      (List.mem_of_mem_getLast? hlast) block ?_)
    simp

/-- **Recovery is replay.**  From stores that represent a chain, recovery succeeds with the
state of the whole chain replayed from the base. -/
theorem recoverLedgerState_eq (hlaw : LawfulLedger ops base) (hrep : Represents ops base db chain) :
    ∃ outcome, db.recoverLedgerState ops base = .ok outcome ∧
      ops.replay base chain = .ok outcome.ledgerState := by
  obtain ⟨front, overlap, rest, hsplit⟩ := hrep.split
  obtain ⟨final, hfinal⟩ := hrep.replays
  have htip : db.tip = ops.tip final := by
    rw [tip_eq_tipOf hsplit, tip_replay hlaw hfinal]
  obtain ⟨upTo, remaining, state, slot, hchain, hstate, hrestore⟩ :=
    tryRestoreCheckpoint_spec hlaw hrep.snapshots db.tip.slot
  obtain ⟨immutableBlocks, himmutable⟩ :=
    suffixAfter_isOk hsplit hrep.distinct hrep.increasing hchain
  obtain ⟨volatileBlocks, rfl, hvolatile⟩ := recoveryBlocks_of_ok hsplit hrep.distinct
    (hrep.increasing.imp UInt64.le_of_lt) hchain himmutable
  rw [hchain] at hfinal
  obtain ⟨atUpTo, hatUpTo, hafter⟩ := replay_split hfinal
  obtain rfl : state = atUpTo := Except.ok.inj (hstate.symm.trans hatUpTo)
  obtain ⟨middle, hmiddle, hlast⟩ := replay_split hafter
  refine ⟨⟨final, ops.tip final, slot, volatileBlocks.length⟩, ?_, hchain ▸ hfinal⟩
  rw [htip] at hrestore
  simp only [ChainDb.recoverLedgerState, hrestore, himmutable, hvolatile, bind, Except.bind,
    ChainDb.replayForRecovery, hmiddle, hlast, htip, ne_eq, not_true_eq_false, if_false]
  rfl

end

end Yggdrasil.Storage
