import Yggdrasil.Storage.Recovery

/-!
# Recovery after any run of the chain database

The operations of the chain database as a transition system: added blocks extend the tip,
checkpoints are taken of the state at the tip, rollbacks go to a block at or after the immutable
tip, and a promotion may stop at any point before its prune.  A snapshot that does not decode can
appear at any slot.  Each operation keeps the stores related to the selected chain, so recovery
equals replay in every state a run visits.
-/

namespace Yggdrasil.Storage

open Ledger Library

variable {State Body Data : Type}

/-- The volatile blocks that are not immutable as well. -/
def volatileOnly (db : ChainDb Body Data) : List (Block Body) :=
  db.volatile.blocks.filter fun block => !db.immutable.containsBlock block.header.hash

/-- The selected chain: the immutable blocks, then the others. -/
def selectedChain (db : ChainDb Body Data) : List (Block Body) :=
  db.immutable.blocks ++ volatileOnly db

/-- One operation. -/
inductive DbAction (Body Data : Type) where
  | addVolatileBlock (block : Block Body)
  | persistCheckpoint (maxSnapshots : Nat)
  | saveUndecodable (slot : SlotNo) (data : Data)
  | rollbackTo (point : Point)
  | promote (point : Point)
  | promoteInterrupted (point : Point) (iterations : Nat)

section

variable (ops : LedgerOps State Body Data) (base : State)

/-- The environment's side of the contract. -/
def dbEnabled (db : ChainDb Body Data) : DbAction Body Data → Prop
  | .addVolatileBlock block =>
    (∀ last ∈ (selectedChain db).getLast?, last.header.slotNo < block.header.slotNo) ∧
    block.header.hash ∉ (selectedChain db).map blockHash ∧
    ∃ state, ops.replay base (selectedChain db ++ [block]) = .ok state
  | .saveUndecodable _ data => ops.decode data = none
  | .rollbackTo point =>
    point = db.immutable.getTip ∨ ∃ block ∈ volatileOnly db, block.point = point
  | _ => True

/-- The stores after one operation; a failed one leaves them as the code does. -/
def dbStep (db : ChainDb Body Data) : DbAction Body Data → ChainDb Body Data
  | .addVolatileBlock block =>
    match db.addVolatileBlock block with
    | .ok next => next
    | .error _ => db
  | .persistCheckpoint maxSnapshots =>
    match ops.replay base (selectedChain db) with
    | .ok state => db.persistLedgerCheckpoint db.tip (ops.encode state) maxSnapshots
    | .error _ => db
  | .saveUndecodable slot data => db.saveLedgerSnapshot slot data
  | .rollbackTo point =>
    match db.rollbackTo point with
    | .ok next => next
    | .error _ => db
  | .promote point => (db.promoteVolatilePrefix point).2
  | .promoteInterrupted point iterations => db.promoteInterrupted point iterations

/-- The chain database from empty stores. -/
def dbSystem : TransitionSystem (ChainDb Body Data) (DbAction Body Data) where
  start := ChainDb.empty
  enabled := dbEnabled ops base
  step := dbStep ops base

end

variable {ops : LedgerOps State Body Data} {base : State} {db : ChainDb Body Data}
  {chain front overlap rest : List (Block Body)}

/-! ## The parts of a split -/

theorem volatileOnly_eq (hsplit : Split db chain front overlap rest)
    (hdistinct : (chain.map blockHash).Nodup) : volatileOnly db = rest := by
  have hfresh : ∀ block ∈ rest, block.header.hash ∉ (front ++ overlap).map blockHash := by
    intro block hblock hmem
    rw [hsplit.chain, List.map_append, List.nodup_append] at hdistinct
    exact hdistinct.2.2 _ hmem _ (List.mem_map.mpr ⟨block, hblock, rfl⟩) rfl
  unfold volatileOnly InMemoryImmutable.containsBlock
  rw [hsplit.volatile, hsplit.immutable, List.filter_append]
  have hover : overlap.filter (fun block =>
      !(front ++ overlap).any (hasHash block.header.hash)) = [] := by
    rw [List.filter_eq_nil_iff]
    intro block hblock
    have hmem : block.header.hash ∈ (front ++ overlap).map blockHash :=
      List.mem_map.mpr ⟨block, List.mem_append_right _ hblock, rfl⟩
    rw [(any_hasHash_iff _ _).mpr hmem]
    decide
  have hrest : rest.filter (fun block =>
      !(front ++ overlap).any (hasHash block.header.hash)) = rest := by
    rw [List.filter_eq_self]
    intro block hblock
    rw [Bool.eq_false_iff.mpr (mt (any_hasHash_iff _ _).mp (hfresh block hblock))]
    decide
  rw [hover, hrest, List.nil_append]

theorem selectedChain_eq (hrep : Represents ops base db chain) : selectedChain db = chain := by
  obtain ⟨front, overlap, rest, hsplit⟩ := hrep.split
  rw [selectedChain, volatileOnly_eq hsplit hrep.distinct, hsplit.immutable, hsplit.chain]

/-! ## Adding a block -/

variable {snapshot : SlotNo × Data}

theorem SnapshotValid.extend (hvalid : SnapshotValid ops base chain snapshot)
    (more : List (Block Body)) : SnapshotValid ops base (chain ++ more) snapshot := by
  rcases hvalid with hcorrupt | ⟨before, block, after, state, rfl, hrest⟩
  · exact .inl hcorrupt
  · exact .inr ⟨before, block, after ++ more, state, by simp, hrest⟩

variable {blocks : List (Block Body)} {block : Block Body}

variable (hrep : Represents ops base db chain)
include hrep

theorem represents_addVolatileBlock
    (hslot : ∀ last ∈ chain.getLast?, last.header.slotNo < block.header.slotNo)
    (hfresh : block.header.hash ∉ chain.map blockHash)
    (hreplay : ∃ state, ops.replay base (chain ++ [block]) = .ok state) :
    ∃ next, db.addVolatileBlock block = .ok next ∧ Represents ops base next (chain ++ [block]) := by
  obtain ⟨front, overlap, rest, hsplit⟩ := hrep.split
  have habsent : ¬ db.volatile.blocks.any (hasHash block.header.hash) = true := by
    rw [any_hasHash_iff, hsplit.volatile]
    intro hmem
    refine hfresh ?_
    rw [hsplit.chain, List.append_assoc, List.map_append]
    exact List.mem_append_right _ hmem
  refine ⟨{ db with volatile := { blocks := db.volatile.blocks ++ [block] } }, ?_, ?_⟩
  · simp only [ChainDb.addVolatileBlock, InMemoryVolatile.addBlock, if_neg habsent]
    rfl
  · refine ⟨⟨front, overlap, rest ++ [block], hsplit.immutable, ?_, ?_⟩, ?_, ?_, hreplay,
      fun snapshot hmem => (hrep.snapshots snapshot hmem).extend [block]⟩
    · simp [hsplit.volatile]
    · simp [hsplit.chain]
    · rw [List.map_append, List.nodup_append]
      refine ⟨hrep.distinct, List.nodup_singleton _, ?_⟩
      rintro hash hhash other hother rfl
      obtain rfl : hash = block.header.hash := by simpa [blockHash] using hother
      exact hfresh hhash
    · rw [List.pairwise_append]
      refine ⟨hrep.increasing, List.pairwise_singleton _ _, ?_⟩
      intro earlier hearlier later hlater
      obtain rfl := List.mem_singleton.mp hlater
      -- every block is at or before the last one, and that one is before the new block
      rcases List.eq_nil_or_concat chain with rfl | ⟨start, last, rfl⟩
      · exact absurd hearlier List.not_mem_nil
      · rw [List.concat_eq_append] at hslot hearlier
        have hincreasing := hrep.increasing
        rw [List.concat_eq_append, List.pairwise_append] at hincreasing
        have hlast := hslot last (by simp)
        rcases List.mem_append.mp hearlier with hstart | hsame
        · exact UInt64.lt_trans (hincreasing.2.2 earlier hstart last (by simp)) hlast
        · rw [List.mem_singleton.mp hsame]
          exact hlast

/-! ## Snapshots -/

theorem represents_saveUndecodable {slot : SlotNo} {data : Data}
    (hcorrupt : ops.decode data = none) :
    Represents ops base (db.saveLedgerSnapshot slot data) chain := by
  obtain ⟨front, overlap, rest, hsplit⟩ := hrep.split
  refine ⟨⟨front, overlap, rest, hsplit.immutable, hsplit.volatile, hsplit.chain⟩, hrep.distinct,
    hrep.increasing, hrep.replays, fun snapshot hmem => ?_⟩
  rcases InMemoryLedgerStore.mem_saveSnapshot hmem with rfl | hold
  · exact .inl hcorrupt
  · exact hrep.snapshots snapshot hold

theorem represents_persistLedgerCheckpoint {state : State}
    (hstate : ops.replay base chain = .ok state) (maxSnapshots : Nat) :
    Represents ops base (db.persistLedgerCheckpoint db.tip (ops.encode state) maxSnapshots)
      chain := by
  obtain ⟨front, overlap, rest, hsplit⟩ := hrep.split
  rw [tip_eq_tipOf hsplit]
  rcases List.eq_nil_or_concat chain with rfl | ⟨start, last, rfl⟩
  · refine ⟨⟨front, overlap, rest, hsplit.immutable, hsplit.volatile, hsplit.chain⟩,
      hrep.distinct, hrep.increasing, hrep.replays, fun snapshot hmem => ?_⟩
    exact absurd hmem List.not_mem_nil
  · rw [List.concat_eq_append] at hsplit hrep hstate ⊢
    rw [tipOf_append_singleton]
    refine ⟨⟨front, overlap, rest, hsplit.immutable, hsplit.volatile, hsplit.chain⟩,
      hrep.distinct, hrep.increasing, hrep.replays, fun snapshot hmem => ?_⟩
    rcases InMemoryLedgerStore.mem_saveSnapshot (InMemoryLedgerStore.mem_retainLatest hmem) with
      rfl | hold
    · exact .inr ⟨start, last, [], state, rfl, rfl, hstate, rfl⟩
    · exact hrep.snapshots snapshot hold

omit hrep

/-! ## Rolling back -/

variable {dropped before : List (Block Body)}

/-- A snapshot not after the last kept block stays valid when the chain is cut there. -/
theorem SnapshotValid.cut {kept : List (Block Body)} {last : Block Body}
    (hvalid : SnapshotValid ops base (kept ++ [last] ++ dropped) snapshot)
    (hincreasing : (kept ++ [last] ++ dropped).Pairwise fun a b =>
      a.header.slotNo < b.header.slotNo) (hslot : snapshot.1 ≤ last.header.slotNo) :
    SnapshotValid ops base (kept ++ [last]) snapshot := by
  rcases hvalid with hcorrupt | ⟨before, block, after, state, hchain, hblock, hrest⟩
  · exact .inl hcorrupt
  · -- a dropped block is after the last kept one, so the snapshot's block is kept
    have hkept : block ∉ dropped := by
      intro hmem
      have hlater := (List.pairwise_append.mp hincreasing).2.2 last (by simp) block hmem
      rw [← hblock] at hslot
      exact absurd hlater (UInt64.not_lt.mpr hslot)
    rcases List.append_eq_append_iff.mp hchain with
      ⟨between, rfl, hdropped⟩ | ⟨between, hfront, htail⟩
    · rw [hdropped] at hkept
      exact absurd (by simp) hkept
    · cases between with
      | nil =>
        rw [List.nil_append] at htail
        rw [← htail] at hkept
        exact absurd (by simp) hkept
      | cons first between =>
        obtain ⟨rfl, -⟩ := List.cons.inj (htail.trans (List.cons_append))
        exact .inr ⟨before, block, between, state, hfront, hblock, hrest⟩

/-- Stores that hold a front part of the chain, with the snapshots after its last block
removed, represent it. -/
theorem represents_cut (hrep : Represents ops base db chain) {next : ChainDb Body Data}
    {kept : List (Block Body)} {point : Point} (hchain : chain = kept ++ dropped)
    (hpoint : tipOf kept = point)
    (hsplit : ∃ front overlap rest, Split next kept front overlap rest)
    (hledger : next.ledger = db.ledger.truncateAfter point.slot) :
    Represents ops base next kept := by
  subst hchain
  have hdistinct := hrep.distinct
  rw [List.map_append, List.nodup_append] at hdistinct
  obtain ⟨final, hfinal⟩ := hrep.replays
  obtain ⟨middle, hmiddle, -⟩ := replay_split hfinal
  refine ⟨hsplit, hdistinct.1, (List.pairwise_append.mp hrep.increasing).1, ⟨middle, hmiddle⟩, ?_⟩
  intro snapshot hmem
  rw [hledger] at hmem
  rcases List.eq_nil_or_concat kept with rfl | ⟨start, last, rfl⟩
  · subst hpoint
    exact absurd hmem List.not_mem_nil
  · rw [List.concat_eq_append] at hpoint hrep ⊢
    rw [tipOf_append_singleton] at hpoint
    subst hpoint
    obtain ⟨hold, hslot⟩ := List.mem_filter.mp hmem
    exact (hrep.snapshots snapshot hold).cut hrep.increasing (by simpa using hslot)

variable {store : InMemoryVolatile Body}

/-- Where a block of the volatile store is found, the rollback keeps the blocks up to it. -/
theorem InMemoryVolatile.rollbackTo_point {after : List (Block Body)}
    (hblocks : store.blocks = before ++ block :: after)
    (hdistinct : (store.blocks.map blockHash).Nodup) :
    store.rollbackTo block.point = { blocks := before ++ [block] } := by
  have hfound : store.blocks.findIdx? (hasHash block.header.hash) = some before.length := by
    rw [hblocks] at hdistinct ⊢
    exact findIdx?_hasHash hdistinct
  have htake : store.blocks.take (before.length + 1) = before ++ [block] := by
    rw [hblocks, ← List.singleton_append, ← List.append_assoc]
    exact List.take_left' (by simp)
  simp only [InMemoryVolatile.rollbackTo, Block.point, hfound, htake]

theorem rollbackTo_volatile {after : List (Block Body)}
    (hvolatile : db.volatile.blocks = before ++ block :: after)
    (hdistinct : (db.volatile.blocks.map blockHash).Nodup) :
    db.rollbackTo block.point =
      .ok { db with
        volatile := { blocks := before ++ [block] }
        ledger := db.ledger.truncateAfter block.point.slot } := by
  have hmem : (db.volatile.getBlock block.header.hash).isSome = true := by
    rw [InMemoryVolatile.getBlock, find?_hasHash_isSome_iff, hvolatile]
    simp [blockHash]
  have hkept := InMemoryVolatile.rollbackTo_point hvolatile hdistinct
  simp only [Block.point] at hkept
  simp [ChainDb.rollbackTo, Block.point, if_pos hmem, hkept,
    ChainDb.truncateLedgerCheckpointsAfterPoint]

theorem rollbackTo_immutable (himmutable : block ∈ db.immutable.blocks)
    (habsent : block.header.hash ∉ db.volatile.blocks.map blockHash) :
    db.rollbackTo block.point =
      .ok { db with
        volatile := { blocks := [] }
        ledger := db.ledger.truncateAfter block.point.slot } := by
  have hnone : ¬ (db.volatile.getBlock block.header.hash).isSome = true := by
    rwa [InMemoryVolatile.getBlock, find?_hasHash_isSome_iff]
  have hsome : (db.immutable.getBlock block.header.hash).isSome = true := by
    rw [InMemoryImmutable.getBlock, find?_hasHash_isSome_iff]
    exact List.mem_map.mpr ⟨block, himmutable, rfl⟩
  simp [ChainDb.rollbackTo, Block.point, if_neg hnone, if_pos hsome, InMemoryVolatile.rollbackTo,
    ChainDb.truncateLedgerCheckpointsAfterPoint]

theorem volatile_distinct (hsplit : Split db chain front overlap rest)
    (hdistinct : (chain.map blockHash).Nodup) : (db.volatile.blocks.map blockHash).Nodup := by
  rw [hsplit.chain, List.append_assoc, List.map_append, List.nodup_append] at hdistinct
  rw [hsplit.volatile]
  exact hdistinct.2.1

include hrep

/-- A rollback to the immutable tip keeps the immutable blocks. -/
theorem represents_rollback_immutable :
    ∃ next kept, db.rollbackTo db.immutable.getTip = .ok next ∧ Represents ops base next kept := by
  obtain ⟨front, overlap, rest, hsplit⟩ := hrep.split
  have htip : db.immutable.getTip = tipOf (front ++ overlap) := by
    rw [InMemoryImmutable.getTip, hsplit.immutable]
  rw [htip]
  rcases List.eq_nil_or_concat (front ++ overlap) with hnone | ⟨start, last, hlast⟩
  · -- an empty immutable store: everything is rolled back
    obtain ⟨rfl, rfl⟩ := List.append_eq_nil_iff.mp hnone
    refine ⟨_, [], rfl, represents_cut hrep hsplit.chain rfl ⟨[], [], [], ?_, rfl, rfl⟩ rfl⟩
    exact hsplit.immutable
  · rw [List.concat_eq_append] at hlast
    have hpoint : tipOf (front ++ overlap) = last.point := by
      rw [hlast, tipOf_append_singleton]
    rcases List.eq_nil_or_concat overlap with rfl | ⟨before, other, rfl⟩
    · -- the tip is immutable only
      rw [List.append_nil] at hlast hpoint
      have habsent : last.header.hash ∉ db.volatile.blocks.map blockHash := by
        intro hmem
        obtain ⟨block, hblock, hsame⟩ := List.mem_map.mp hmem
        have hdistinct := hrep.distinct
        rw [hsplit.chain, List.map_append, List.nodup_append] at hdistinct
        rw [hsplit.volatile] at hblock
        exact hdistinct.2.2 _ (List.mem_map.mpr ⟨last, by rw [hlast]; simp, rfl⟩) _
          (List.mem_map.mpr ⟨block, hblock, rfl⟩) hsame.symm
      have himmutable : last ∈ db.immutable.blocks := by
        rw [hsplit.immutable, hlast]
        simp
      have hchain : chain = front ++ rest := by simpa using hsplit.chain
      rw [List.append_nil, hpoint, rollbackTo_immutable himmutable habsent]
      exact ⟨_, front, rfl, represents_cut hrep hchain hpoint
        ⟨front, [], [], hsplit.immutable, rfl, by simp⟩ rfl⟩
    · -- the tip is repeated in the volatile store
      rw [List.concat_eq_append] at hsplit hlast hpoint ⊢
      obtain rfl : other = last := by
        rw [← List.append_assoc] at hlast
        exact (List.append_inj' hlast rfl).2 |> List.singleton_inj.mp
      have hvolatile : db.volatile.blocks = before ++ other :: rest := by
        rw [hsplit.volatile]
        simp
      rw [hpoint, rollbackTo_volatile hvolatile (volatile_distinct hsplit hrep.distinct)]
      exact ⟨_, front ++ (before ++ [other]), rfl, represents_cut hrep hsplit.chain hpoint
        ⟨front, before ++ [other], [], hsplit.immutable, by simp, by simp⟩ rfl⟩

/-- A rollback to a block that is only volatile keeps the chain up to it. -/
theorem represents_rollback_volatile (hblock : block ∈ volatileOnly db) :
    ∃ next kept, db.rollbackTo block.point = .ok next ∧ Represents ops base next kept := by
  obtain ⟨front, overlap, rest, hsplit⟩ := hrep.split
  rw [volatileOnly_eq hsplit hrep.distinct] at hblock
  obtain ⟨before, after, rfl⟩ := List.append_of_mem hblock
  have hvolatile : db.volatile.blocks = (overlap ++ before) ++ block :: after := by
    rw [hsplit.volatile, List.append_assoc]
  have hchain : chain = (front ++ overlap ++ (before ++ [block])) ++ after := by
    rw [hsplit.chain]
    simp
  have hpoint : tipOf (front ++ overlap ++ (before ++ [block])) = block.point := by
    rw [← List.append_assoc, tipOf_append_singleton]
  rw [rollbackTo_volatile hvolatile (volatile_distinct hsplit hrep.distinct)]
  exact ⟨_, _, rfl, represents_cut hrep hchain hpoint
    ⟨front, overlap, before ++ [block], hsplit.immutable, by simp, rfl⟩ rfl⟩

omit hrep

/-! ## Promotion -/

theorem appendMissing_append (immutable : InMemoryImmutable Body) (first second : List (Block Body))
    {middle : InMemoryImmutable Body}
    (hfirst : ChainDb.appendMissing immutable first = (.ok (), middle)) :
    ChainDb.appendMissing immutable (first ++ second) = ChainDb.appendMissing middle second := by
  induction first generalizing immutable with
  | nil =>
    obtain ⟨-, rfl⟩ := Prod.mk.inj hfirst
    rfl
  | cons block rest ih =>
    -- a present block is skipped in both loops; an append that fails contradicts `hfirst`
    rw [List.cons_append, ChainDb.appendMissing]
    rw [ChainDb.appendMissing] at hfirst
    split
    · rename_i hcontains
      rw [if_pos hcontains] at hfirst
      exact ih immutable hfirst
    · rename_i hmissing
      rw [if_neg hmissing] at hfirst
      cases happend : immutable.appendBlock block with
      | error reason => simp [happend] at hfirst
      | ok next =>
        rw [happend] at hfirst
        exact ih next hfirst

variable {immutable : InMemoryImmutable Body}

theorem appendMissing_contained (hcontained : ∀ block ∈ blocks, block ∈ immutable.blocks) :
    ChainDb.appendMissing immutable blocks = (.ok (), immutable) := by
  induction blocks with
  | nil => rfl
  | cons block rest ih =>
    have hhas : immutable.containsBlock block.header.hash = true := by
      rw [InMemoryImmutable.containsBlock, any_hasHash_iff]
      exact List.mem_map.mpr ⟨block, hcontained block List.mem_cons_self, rfl⟩
    rw [ChainDb.appendMissing, if_pos hhas]
    exact ih fun other hother => hcontained other (List.mem_cons_of_mem _ hother)

theorem appendMissing_fresh (hdistinct : ((immutable.blocks ++ blocks).map blockHash).Nodup) :
    ChainDb.appendMissing immutable blocks =
      (.ok (), { blocks := immutable.blocks ++ blocks }) := by
  induction blocks generalizing immutable with
  | nil => simp [ChainDb.appendMissing]
  | cons block rest ih =>
    have habsent : ¬ immutable.blocks.any (hasHash block.header.hash) = true := by
      rw [any_hasHash_iff]
      intro hmem
      obtain ⟨other, hother, hsame⟩ := List.mem_map.mp hmem
      exact hash_ne_of_mem_before hdistinct hother hsame
    have hnext : (({ blocks := immutable.blocks ++ [block] } :
        InMemoryImmutable Body).blocks ++ rest).map blockHash =
        (immutable.blocks ++ block :: rest).map blockHash := by simp
    rw [ChainDb.appendMissing, InMemoryImmutable.containsBlock, if_neg habsent,
      InMemoryImmutable.appendBlock, if_neg habsent]
    simp only
    rw [ih (hnext ▸ hdistinct)]
    simp

/-- The append loop over the first volatile blocks adds those that are not immutable yet. -/
theorem appendMissing_take (hsplit : Split db chain front overlap rest)
    (hdistinct : (chain.map blockHash).Nodup) (count : Nat) :
    ChainDb.appendMissing db.immutable (db.volatile.blocks.take count) =
      (.ok (), { blocks := front ++ overlap ++ rest.take (count - overlap.length) }) := by
  rw [hsplit.volatile, List.take_append]
  have hskip : ChainDb.appendMissing db.immutable (overlap.take count) =
      (.ok (), db.immutable) := by
    refine appendMissing_contained fun block hblock => ?_
    rw [hsplit.immutable]
    exact List.mem_append_right _ (List.mem_of_mem_take hblock)
  rw [appendMissing_append _ _ _ hskip, appendMissing_fresh, hsplit.immutable]
  rw [hsplit.immutable]
  refine List.Nodup.sublist ?_ hdistinct
  rw [hsplit.chain]
  exact List.Sublist.map _ ((List.take_sublist _ _).append_left _)

/-- A volatile prefix is the first blocks, and pruning to the same point keeps the others. -/
theorem prefixUpTo_eq_ok {point : Point} (hblocks : store.prefixUpTo point = .ok blocks) :
    ∃ count, blocks = store.blocks.take count ∧
      store.pruneUpTo point = .ok { blocks := store.blocks.drop count } := by
  cases point with
  | origin =>
    obtain rfl := Except.ok.inj hblocks
    exact ⟨0, by simp, by simp [InMemoryVolatile.pruneUpTo]⟩
  | blockPoint slot hash =>
    simp only [InMemoryVolatile.prefixUpTo] at hblocks
    cases hfound : store.blocks.findIdx? (hasHash hash) with
    | none => simp [hfound] at hblocks
    | some position =>
      rw [hfound] at hblocks
      obtain rfl := Except.ok.inj hblocks
      exact ⟨position + 1, rfl, by simp [InMemoryVolatile.pruneUpTo, hfound]⟩

include hrep

theorem represents_of_split {next : ChainDb Body Data}
    (hsplit : ∃ front overlap rest, Split next chain front overlap rest)
    (hledger : next.ledger = db.ledger) : Represents ops base next chain :=
  ⟨hsplit, hrep.distinct, hrep.increasing, hrep.replays, hledger ▸ hrep.snapshots⟩

theorem represents_promoteInterrupted (point : Point) (iterations : Nat) :
    Represents ops base (db.promoteInterrupted point iterations) chain := by
  obtain ⟨front, overlap, rest, hsplit⟩ := hrep.split
  unfold ChainDb.promoteInterrupted
  cases hblocks : db.volatile.prefixUpTo point with
  | error reason => exact hrep
  | ok blocks =>
    obtain ⟨count, rfl, -⟩ := prefixUpTo_eq_ok hblocks
    simp only [List.take_take, appendMissing_take hsplit hrep.distinct]
    generalize min iterations count - overlap.length = appended
    refine represents_of_split hrep
      ⟨front, overlap ++ rest.take appended, rest.drop appended, ?_, ?_, ?_⟩ rfl
    · simp
    · simp [hsplit.volatile]
    · simp [hsplit.chain]

theorem represents_promoteVolatilePrefix (point : Point) :
    Represents ops base (db.promoteVolatilePrefix point).2 chain := by
  obtain ⟨front, overlap, rest, hsplit⟩ := hrep.split
  unfold ChainDb.promoteVolatilePrefix
  cases hblocks : db.volatile.prefixUpTo point with
  | error reason => exact hrep
  | ok blocks =>
    obtain ⟨count, rfl, hprune⟩ := prefixUpTo_eq_ok hblocks
    simp only [appendMissing_take hsplit hrep.distinct, hprune]
    by_cases hinside : count ≤ overlap.length
    · -- only repeated blocks were pruned
      refine represents_of_split hrep
        ⟨front ++ overlap.take count, overlap.drop count, rest, ?_, ?_, ?_⟩ rfl
      · simp [Nat.sub_eq_zero_of_le hinside]
      · simp [hsplit.volatile, List.drop_append, Nat.sub_eq_zero_of_le hinside]
      · simp [hsplit.chain]
    · -- the stores no longer overlap
      have hgone : overlap.drop count = [] := List.drop_eq_nil_of_le (by omega)
      refine represents_of_split hrep
        ⟨front ++ overlap ++ rest.take (count - overlap.length), [],
          rest.drop (count - overlap.length), ?_, ?_, ?_⟩ rfl
      · simp
      · simp [hsplit.volatile, List.drop_append, hgone]
      · simp [hsplit.chain]

omit hrep

/-! ## Whole runs -/

theorem represents_dbStep (hrep : Represents ops base db (selectedChain db))
    (action : DbAction Body Data) (henabled : dbEnabled ops base db action) :
    ∃ chain, Represents ops base (dbStep ops base db action) chain := by
  cases action with
  | addVolatileBlock block =>
    obtain ⟨hslot, hfresh, hreplay⟩ := henabled
    obtain ⟨next, hadd, hnext⟩ := represents_addVolatileBlock hrep hslot hfresh hreplay
    simp only [dbStep, hadd]
    exact ⟨_, hnext⟩
  | persistCheckpoint maxSnapshots =>
    obtain ⟨state, hstate⟩ := hrep.replays
    simp only [dbStep, hstate]
    exact ⟨_, represents_persistLedgerCheckpoint hrep hstate _⟩
  | saveUndecodable slot data => exact ⟨_, represents_saveUndecodable hrep henabled⟩
  | rollbackTo point =>
    rcases henabled with rfl | ⟨block, hblock, rfl⟩
    · obtain ⟨next, kept, hroll, hnext⟩ := represents_rollback_immutable hrep
      simp only [dbStep, hroll]
      exact ⟨kept, hnext⟩
    · obtain ⟨next, kept, hroll, hnext⟩ := represents_rollback_volatile hrep hblock
      simp only [dbStep, hroll]
      exact ⟨kept, hnext⟩
  | promote point => exact ⟨_, represents_promoteVolatilePrefix hrep point⟩
  | promoteInterrupted point iterations =>
    exact ⟨_, represents_promoteInterrupted hrep point _⟩

theorem represents_empty :
    Represents ops base ChainDb.empty (selectedChain (ChainDb.empty : ChainDb Body Data)) where
  split := ⟨[], [], [], rfl, rfl, rfl⟩
  distinct := List.nodup_nil
  increasing := List.Pairwise.nil
  replays := ⟨base, rfl⟩
  snapshots := fun _ hmem => absurd hmem List.not_mem_nil

/-- **Checkpointed recovery equals full replay.**  After any legal run from empty stores,
recovery succeeds, ends at the coordinated tip, and its state is the left fold of the block
application from the base over the whole selected chain. -/
theorem recovers_run (hlaw : LawfulLedger ops base) {actions : List (DbAction Body Data)}
    (hlegal : (dbSystem ops base).Legal actions) :
    ∃ outcome, ((dbSystem ops base).run actions).recoverLedgerState ops base = .ok outcome ∧
      ops.replay base (selectedChain ((dbSystem ops base).run actions)) = .ok outcome.ledgerState ∧
      tipOf (selectedChain ((dbSystem ops base).run actions)) =
        ((dbSystem ops base).run actions).tip := by
  have hrep : Represents ops base ((dbSystem ops base).run actions)
      (selectedChain ((dbSystem ops base).run actions)) := by
    refine (dbSystem ops base).invariant_of_legal
      (fun db => Represents ops base db _) represents_empty ?_ hlegal
    intro db action henabled hdb
    obtain ⟨chain, hnext⟩ := represents_dbStep hdb action henabled
    have hselected := selectedChain_eq hnext
    rw [← hselected] at hnext
    exact hnext
  obtain ⟨outcome, hrecover, hstate⟩ := recoverLedgerState_eq hlaw hrep
  obtain ⟨front, overlap, rest, hsplit⟩ := hrep.split
  exact ⟨outcome, hrecover, hstate, (tip_eq_tipOf hsplit).symm⟩

/-- A ledger that only remembers its blocks; a snapshot may be missing its data. -/
def blockLog : LedgerOps (List (Block Unit)) Unit (Option (List (Block Unit))) where
  applyBlock := fun blocks block => .ok (blocks ++ [block])
  tip := tipOf
  encode := some
  decode := id
  rehydrate := fun restored _ => restored

theorem blockLog_lawful : LawfulLedger blockLog [] where
  tip_base := rfl
  tip_applyBlock := by
    rintro blocks block next hnext
    obtain rfl := Except.ok.inj hnext
    exact tipOf_append_singleton blocks block
  restore_encode := fun _ state _ => ⟨state, rfl, rfl⟩

def loggedBlock (hash : HeaderHash) (slot : SlotNo) : Block Unit := ⟨⟨hash, 0, slot, 0⟩, ()⟩

/-- Two blocks, each with a checkpoint, a rollback to the first and another block on it, a promotion
that stops before the prune, and a corrupt snapshot. -/
def interruptedRun : List (DbAction Unit (Option (List (Block Unit)))) :=
  [.addVolatileBlock (loggedBlock 1 5), .persistCheckpoint 3, .addVolatileBlock (loggedBlock 2 7),
    .persistCheckpoint 3, .rollbackTo (loggedBlock 1 5).point, .addVolatileBlock (loggedBlock 3 9),
    .promoteInterrupted (loggedBlock 1 5).point 1, .saveUndecodable 3 none]

theorem interruptedRun_legal : (dbSystem blockLog []).Legal interruptedRun := by
  refine TransitionSystem.legal_of_legalFrom _ ⟨⟨nofun, List.not_mem_nil, ⟨_, rfl⟩⟩, trivial,
    ⟨?_, by decide, ⟨_, rfl⟩⟩, trivial, .inr ⟨_, List.mem_cons_self, rfl⟩,
    ⟨?_, by decide, ⟨_, rfl⟩⟩, trivial, rfl, trivial⟩
  · rintro _ ⟨⟩
    decide
  · rintro _ ⟨⟩
    decide

theorem interruptedRun_recovers :
    selectedChain ((dbSystem blockLog []).run interruptedRun) =
        [loggedBlock 1 5, loggedBlock 3 9] ∧
      ∃ outcome, ((dbSystem blockLog []).run interruptedRun).recoverLedgerState blockLog [] =
          .ok outcome ∧
        blockLog.replay [] (selectedChain ((dbSystem blockLog []).run interruptedRun)) =
          .ok outcome.ledgerState ∧
        tipOf (selectedChain ((dbSystem blockLog []).run interruptedRun)) =
          ((dbSystem blockLog []).run interruptedRun).tip :=
  ⟨by decide, recovers_run blockLog_lawful interruptedRun_legal⟩

end Yggdrasil.Storage
