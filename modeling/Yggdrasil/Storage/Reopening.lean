import Yggdrasil.Storage.CrashAtomicity

/-!
# Reopening a file store

A file store does not write down the order of its blocks.  `open` collects the block files in a hash
map and sorts what the map yields by slot, so two blocks of one slot come back in the order in which
the map is walked.  A store whose blocks were added in the order of their slots is rebuilt the same by
every `open` exactly if no two of its blocks share a slot (`reopensSame_iff`), and this is what every
run of the two stores comes to (`reopens_iff_slots_distinct`).
-/

namespace Yggdrasil.Storage

open Ledger Library

variable {Body : Type}

/-! ## Sorting by slot -/

/-- In order of slots, where blocks of one slot may stand next to each other. -/
def SlotOrdered (blocks : List (Block Body)) : Prop :=
  blocks.Pairwise fun earlier later => earlier.header.slotNo ≤ later.header.slotNo

/-- No two blocks have one slot. -/
def SlotsDistinct (blocks : List (Block Body)) : Prop :=
  (blocks.map fun block => block.header.slotNo).Nodup

/-- The order `open` sorts by. -/
def bySlot (a b : Block Body) : Bool := decide (a.header.slotNo ≤ b.header.slotNo)

theorem bySlot_trans (a b c : Block Body) (hab : bySlot a b = true) (hbc : bySlot b c = true) :
    bySlot a c = true := by
  simp only [bySlot, decide_eq_true_eq] at *
  exact UInt64.le_trans hab hbc

theorem bySlot_total (a b : Block Body) : (bySlot a b || bySlot b a) = true := by
  simp only [bySlot, Bool.or_eq_true, decide_eq_true_eq]
  exact UInt64.le_total _ _

variable {blocks : List (Block Body)}

/-- Blocks in strict order of their slots are what sorting any arrangement of them gives. -/
theorem mergeSort_eq_of_slotsDistinct {listed : List (Block Body)} (hordered : SlotOrdered blocks)
    (hdistinct : SlotsDistinct blocks) (hperm : listed.Perm blocks) :
    listed.mergeSort bySlot = blocks := by
  have hsorted := List.pairwise_mergeSort bySlot_trans bySlot_total listed
  have hmerged : (listed.mergeSort bySlot).Perm blocks := (List.mergeSort_perm _ _).trans hperm
  refine hmerged.eq_of_pairwise (fun a b ha hb hab hba => ?_) hsorted
    (hordered.imp fun hle => decide_eq_true hle)
  simp only [bySlot, decide_eq_true_eq] at hab hba
  exact List.inj_on_of_nodup_map hdistinct (hmerged.subset ha) hb (UInt64.le_antisymm hab hba)

/-- Two different orders of a pair are not both found in a list without repetition. -/
theorem not_sublist_swap {list : List (Block Body)} (hnodup : list.Nodup) {a b : Block Body}
    (hab : [a, b].Sublist list) : ¬ [b, a].Sublist list := by
  induction list with
  | nil => exact absurd hab (by simp)
  | cons first rest ih =>
    obtain ⟨hfirst, hrest⟩ := List.nodup_cons.mp hnodup
    intro hba
    cases hab with
    | cons _ hab =>
      cases hba with
      | cons _ hba => exact ih hrest hab hba
      | cons_cons _ hba => exact hfirst (hab.subset (by simp))
    | cons_cons _ hab =>
      cases hba with
      | cons _ hba => exact hfirst (hba.subset (by simp))
      | cons_cons _ hba => exact hfirst (hab.subset (by simp))

/-- Where two blocks share a slot, sorting the reversed list does not give the list back. -/
theorem mergeSort_reverse_ne (hnodup : blocks.Nodup) (hshared : ¬ SlotsDistinct blocks) :
    blocks.reverse.mergeSort bySlot ≠ blocks := by
  intro hsame
  rw [SlotsDistinct, List.Nodup, List.pairwise_map, List.pairwise_iff_forall_sublist] at hshared
  push Not at hshared
  obtain ⟨a, b, hab, hslot⟩ := hshared
  have hreversed : [b, a].Sublist blocks.reverse := by
    have hreverse := hab.reverse
    simpa using hreverse
  have hpair : [b, a].Pairwise fun x y => bySlot x y = true := by
    simp [bySlot, hslot]
  have hkept := List.sublist_mergeSort bySlot_trans bySlot_total hpair hreversed
  rw [hsame] at hkept
  exact not_sublist_swap hnodup hab hkept

/-! ## A store and its directory -/

/-- Opening the store's directory gives the store back, whatever the orders of listing. -/
def ReopensSame (openStore : Orders → Disk Body Unit) (store : FileStore Body) : Prop :=
  ∀ orders,
    ((openStore orders).perform store.restart).1 = .returned () ∧
    ((openStore orders).perform store.restart).2.state.chain = store.chain ∧
    ((openStore orders).perform store.restart).2.state.tip = store.tip ∧
    ∀ hash, ((openStore orders).perform store.restart).2.state.index.lookup hash =
      store.index.lookup hash

/-- Listings that follow the directory, and a map that is walked in a given order. -/
def ordersAlong (walk : List HeaderHash) : Orders :=
  { plainOrders with
    values := fun hashes => if hashes.Perm walk then walk else hashes
    values_perm := fun hashes => by
      by_cases hperm : hashes.Perm walk
      · rw [if_pos hperm]
        exact hperm.symm
      · rw [if_neg hperm] }

section

variable {store : FileStore Body} {blocks : List (Block Body)}

theorem FileStore.InSync.nodup (hsync : store.InSync blocks) : blocks.Nodup :=
  .of_map _ hsync.holds.distinct

theorem filterMap_lookupIn (hdistinct : (blocks.map blockHash).Nodup) {part : List (Block Body)}
    (hpart : ∀ block ∈ part, block ∈ blocks) :
    (part.map blockHash).filterMap (lookupIn blocks) = part := by
  induction part with
  | nil => rfl
  | cons block rest ih =>
    have hfound : lookupIn blocks (blockHash block) = some block :=
      (lookupIn_eq_some_iff hdistinct).mpr ⟨hpart block List.mem_cons_self, rfl⟩
    rw [List.map_cons, List.filterMap_cons_some hfound,
      ih fun other hother => hpart other (List.mem_cons_of_mem _ hother)]

theorem FileStore.Holds.tip_eq (hholds : store.Holds blocks) : store.tip = some (tipOf blocks) := by
  rw [FileStore.tip, hholds.chain, tipOf]
  rcases List.eq_nil_or_concat blocks with rfl | ⟨front, last, rfl⟩
  · rfl
  · have hfound : store.index.lookup (blockHash last) = some last := by
      rw [hholds.lookup, lookupIn_eq_some_iff hholds.distinct]
      exact ⟨by simp, rfl⟩
    simp [hfound]

/-- What an `open` of the store's directory reads: the blocks in some order, sorted by slot. -/
theorem opened_blocks (hsync : store.InSync blocks) {orders : Orders} {opened : FileStore Body}
    (hopened : FileStore.Opened orders (lookupIn blocks) opened) :
    ∃ hashes : List HeaderHash, hashes.Perm (blocks.map blockHash) ∧
      opened.InSync (((orders.values hashes).filterMap (lookupIn blocks)).mergeSort bySlot) := by
  obtain ⟨hashes, hnodup, hmem, -, hopenedSync⟩ := hopened.inSync
  refine ⟨hashes, (List.perm_ext_iff_of_nodup hnodup hsync.holds.distinct).mpr fun hash => ?_,
    hopenedSync⟩
  rw [hmem, lookupIn_isSome_iff]

/-- **When a store is rebuilt the same.**  Exactly if no two of its blocks share a slot. -/
theorem reopensSame_iff (hsync : store.InSync blocks) (hordered : SlotOrdered blocks)
    {openStore : Orders → Disk Body Unit}
    (hopen : ∀ orders, Yields FileStore.Performed (openStore orders) store.restart
      (fun _ next => FileStore.Opened orders (lookupIn blocks) next)
      fun next => FileStore.Survives (lookupIn blocks) next.files) :
    ReopensSame openStore store ↔ SlotsDistinct blocks := by
  have hreturned : ∀ orders, ((openStore orders).perform store.restart).1 = .returned () ∧
      FileStore.Opened orders (lookupIn blocks)
        ((openStore orders).perform store.restart).2.state := by
    intro orders
    have hkept := (hopen orders).perform
    have hended := (openStore orders).perform_ne_stopped store.restart
    rcases hresult : (openStore orders).perform store.restart with ⟨ending, after⟩
    rw [hresult] at hkept hended
    cases ending with
    | returned value => exact ⟨rfl, hkept.1⟩
    | threw error | panicked => exact hkept.1.elim
    | stopped => exact absurd rfl hended
  have hwhole := filterMap_lookupIn hsync.holds.distinct fun _ hmem => hmem
  constructor
  · intro hsame
    by_contra hshared
    -- walk the map against the order of the blocks
    obtain ⟨hashes, hperm, hopened⟩ :=
      opened_blocks hsync (hreturned (ordersAlong (blocks.reverse.map blockHash))).2
    have hwalk : (ordersAlong (blocks.reverse.map blockHash)).values hashes =
        blocks.reverse.map blockHash :=
      if_pos (hperm.trans ((List.reverse_perm blocks).map blockHash).symm)
    rw [hwalk, filterMap_lookupIn hsync.holds.distinct fun block hmem =>
      List.mem_reverse.mp hmem] at hopened
    have hchain := (hsame (ordersAlong (blocks.reverse.map blockHash))).2.1
    rw [hopened.holds.chain, hsync.holds.chain] at hchain
    have hblocks := congrArg (List.filterMap (lookupIn blocks)) hchain
    rw [hwhole, filterMap_lookupIn hsync.holds.distinct fun block hmem =>
      List.mem_reverse.mp (List.mem_mergeSort.mp hmem)] at hblocks
    exact mergeSort_reverse_ne hsync.nodup hshared hblocks
  · intro hdistinct orders
    obtain ⟨hreturn, hopened⟩ := hreturned orders
    obtain ⟨hashes, hperm, hopenedSync⟩ := opened_blocks hsync hopened
    have hlisted : ((orders.values hashes).filterMap (lookupIn blocks)).Perm blocks := by
      have hall := ((orders.values_perm hashes).trans hperm).filterMap (lookupIn blocks)
      rwa [hwhole] at hall
    rw [mergeSort_eq_of_slotsDistinct hordered hdistinct hlisted] at hopenedSync
    refine ⟨hreturn, ?_, ?_, fun hash => ?_⟩
    · rw [hopenedSync.holds.chain, hsync.holds.chain]
    · rw [hopenedSync.holds.tip_eq, hsync.holds.tip_eq]
    · rw [hopenedSync.holds.lookup, hsync.holds.lookup]

end

/-! ## Runs -/

/-- The operations that change an immutable store. -/
inductive ImmutableCall (Body : Type) where
  | appendBlock (block : Block Body)
  | trimBeforeSlot (slot : SlotNo)
  | trimAfterSlot (slot : SlotNo)

namespace ImmutableCall

/-- The operation on a file store, without the number of blocks that a trim returns. -/
def program : ImmutableCall Body → Disk Body Unit
  | appendBlock block => FileImmutable.appendBlock block
  | trimBeforeSlot slot => do
    let _ ← FileImmutable.trimBeforeSlot slot
    pure ()
  | trimAfterSlot slot => do
    let _ ← FileImmutable.trimAfterSlot slot
    pure ()

/-- The operation on the list of blocks. -/
def effect : ImmutableCall Body → List (Block Body) → Except StorageError (Unit × List (Block Body))
  | appendBlock block, blocks =>
    ((InMemoryImmutable.mk blocks).appendBlock block).map fun next => ((), next.blocks)
  | trimBeforeSlot slot, blocks =>
    .ok ((), ((InMemoryImmutable.mk blocks).trimBeforeSlot slot).2.blocks)
  | trimAfterSlot slot, blocks =>
    .ok ((), ((InMemoryImmutable.mk blocks).trimAfterSlot slot).2.blocks)

theorem performs (call : ImmutableCall Body) : FileStore.Performs call.program call.effect := by
  have htrim : ∀ (trim : Disk Body Nat) (kept : List (Block Body) → List (Block Body)),
      FileStore.Performs trim (fun blocks => .ok (blocks.length - (kept blocks).length, kept
        blocks)) →
      FileStore.Performs (trim >>= fun _ => pure ()) fun blocks => .ok ((), kept blocks) := by
    intro trim kept hperforms store blocks hsync
    refine (hperforms store blocks hsync).seq (fun count next hnext => ?_)
      (fun _ _ hthrew => nomatch hthrew.1) fun _ _ => trivial
    obtain ⟨after, hafter, hsync⟩ := hnext
    cases hafter
    exact .pure ⟨_, rfl, hsync⟩
  cases call with
  | appendBlock block =>
    have hsame : (appendBlock block).effect = fun blocks =>
        ((InMemoryVolatile.mk blocks).addBlock block).map fun next => ((), next.blocks) := by
      funext blocks
      simp only [effect, InMemoryImmutable.appendBlock, InMemoryVolatile.addBlock]
      split_ifs <;> rfl
    rw [hsame]
    exact (FileStore.appendBlock_refines block).performs
  | trimBeforeSlot slot => exact htrim _ _ (FileImmutable.trimBeforeSlot_performs slot)
  | trimAfterSlot slot => exact htrim _ _ (FileImmutable.trimAfterSlot_performs slot)

end ImmutableCall

/-- A kind of store: its operations, what they do to a list of blocks, and which block they add. -/
structure StoreKind (Body Call : Type) where
  program : Call → Disk Body Unit
  effect : Call → List (Block Body) → Except StorageError (Unit × List (Block Body))
  added : Call → Option (Block Body)

/-- The volatile store. -/
def volatileKind : StoreKind Body (VolatileCall Body) where
  program := VolatileCall.program
  effect := VolatileCall.effect
  added
    | .addBlock block => some block
    | _ => none

/-- The immutable store. -/
def immutableKind : StoreKind Body (ImmutableCall Body) where
  program := ImmutableCall.program
  effect := ImmutableCall.effect
  added
    | .appendBlock block => some block
    | _ => none

/-- A block is not before the store's tip. -/
def NotBeforeTip (store : FileStore Body) (block : Block Body) : Prop :=
  match store.tip with
  | some (.blockPoint slot _) => slot ≤ block.header.slotNo
  | _ => True

namespace StoreKind

variable {Call : Type} (kind : StoreKind Body Call)

/-- Runs from an empty directory in which blocks come in the order of their slots and every call to
the file system is performed. -/
def system : TransitionSystem (FileStore Body) Call where
  start := FileStore.empty
  enabled store call := ∀ block ∈ kind.added call, NotBeforeTip store block
  step store call := ((kind.program call).perform store).2.state

/-- What is known of the operations of a kind. -/
structure Lawful : Prop where
  performs : ∀ call, FileStore.Performs (kind.program call) (kind.effect call)
  cuts_or_adds : ∀ call blocks, (FileStore.listAfter (kind.effect call) blocks).Sublist blocks ∨
    ∃ block, kind.added call = some block ∧
      FileStore.listAfter (kind.effect call) blocks = blocks ++ [block]

variable {kind}

theorem slotOrdered_append {blocks : List (Block Body)} {store : FileStore Body}
    (hholds : store.Holds blocks) (hordered : SlotOrdered blocks) {block : Block Body}
    (hblock : NotBeforeTip store block) : SlotOrdered (blocks ++ [block]) := by
  rw [SlotOrdered, List.pairwise_append]
  refine ⟨hordered, List.pairwise_singleton _ _, fun earlier hearlier later hlater => ?_⟩
  rw [List.mem_singleton] at hlater
  subst hlater
  rw [NotBeforeTip, hholds.tip_eq] at hblock
  rcases List.eq_nil_or_concat blocks with rfl | ⟨front, last, rfl⟩
  · exact absurd hearlier List.not_mem_nil
  · rw [List.concat_eq_append] at hblock hearlier hordered
    rw [tipOf_append_singleton] at hblock
    have hlast := hblock
    rcases List.mem_append.mp hearlier with hfront | hsingle
    · exact UInt64.le_trans ((List.pairwise_append.mp hordered).2.2 earlier hfront last (by simp))
        hlast
    · rwa [List.mem_singleton.mp hsingle]

/-- Along every run the store is in step with a list in order of slots. -/
theorem Lawful.inSync (hlaw : kind.Lawful) {actions : List Call}
    (hlegal : kind.system.Legal actions) :
    ∃ blocks, (kind.system.run actions).InSync blocks ∧ SlotOrdered blocks := by
  refine kind.system.invariant_of_legal (fun store => ∃ blocks, store.InSync blocks ∧
    SlotOrdered blocks) ⟨[], ⟨⟨rfl, fun _ => rfl, List.nodup_nil⟩, ⟨⟨nofun, nofun, rfl⟩, rfl,
      fun _ => rfl⟩⟩, List.Pairwise.nil⟩ ?_ hlegal
  rintro store call henabled ⟨blocks, hsync, hordered⟩
  refine ⟨_, ((hlaw.performs call).perform_eq hsync).2, ?_⟩
  rcases hlaw.cuts_or_adds call blocks with hcut | ⟨block, hadded, hafter⟩
  · exact hordered.sublist hcut
  · rw [hafter]
    exact slotOrdered_append hsync.holds hordered (henabled block hadded)

end StoreKind

theorem volatileKind_lawful : (volatileKind : StoreKind Body _).Lawful where
  performs call := call.refines.performs
  cuts_or_adds call blocks := by
    cases call with
    | addBlock block =>
      by_cases hheld : blocks.any (hasHash block.header.hash) = true
      · left
        simp [volatileKind, VolatileCall.effect, FileStore.listAfter, InMemoryVolatile.addBlock,
          hheld, Except.map]
      · right
        refine ⟨block, rfl, ?_⟩
        simp [volatileKind, VolatileCall.effect, FileStore.listAfter, InMemoryVolatile.addBlock,
          hheld, Except.map]
    | pruneUpTo point =>
      left
      cases point with
      | origin => exact List.Sublist.refl _
      | blockPoint slot hash =>
        simp only [volatileKind, VolatileCall.effect, FileStore.listAfter,
          InMemoryVolatile.pruneUpTo]
        cases blocks.findIdx? (hasHash hash) with
        | none => exact List.Sublist.refl _
        | some position => exact List.drop_sublist _ _
    | rollbackTo point =>
      left
      cases point with
      | origin => exact List.nil_sublist _
      | blockPoint slot hash =>
        simp only [volatileKind, VolatileCall.effect, FileStore.listAfter,
          InMemoryVolatile.rollbackTo]
        cases blocks.findIdx? (hasHash hash) with
        | none => exact List.Sublist.refl _
        | some position => exact List.take_sublist _ _
    | garbageCollect slot => exact .inl List.filter_sublist

theorem immutableKind_lawful : (immutableKind : StoreKind Body _).Lawful where
  performs call := call.performs
  cuts_or_adds call blocks := by
    cases call with
    | appendBlock block =>
      by_cases hheld : blocks.any (hasHash block.header.hash) = true
      · left
        simp [immutableKind, ImmutableCall.effect, FileStore.listAfter,
          InMemoryImmutable.appendBlock, hheld, Except.map]
      · right
        refine ⟨block, rfl, ?_⟩
        simp [immutableKind, ImmutableCall.effect, FileStore.listAfter,
          InMemoryImmutable.appendBlock, hheld, Except.map]
    | trimBeforeSlot slot | trimAfterSlot slot => exact .inl List.filter_sublist

/-- The blocks a store holds, in the order of its chain. -/
def FileStore.stored (store : FileStore Body) : List (Block Body) := store.indexed store.chain

theorem FileStore.Holds.stored_eq {store : FileStore Body} (hholds : store.Holds blocks) :
    store.stored = blocks := by
  have hlookup : store.index.lookup = lookupIn blocks := funext hholds.lookup
  rw [FileStore.stored, FileStore.indexed, hlookup, hholds.chain]
  exact filterMap_lookupIn hholds.distinct fun _ hmem => hmem

/-- **Reopening rebuilds the same chain** after a run of either store exactly if no two blocks in
the store share a slot. -/
theorem reopens_iff_slots_distinct :
    (∀ actions : List (VolatileCall Body), volatileKind.system.Legal actions →
      (ReopensSame FileVolatile.openStore (volatileKind.system.run actions) ↔
        SlotsDistinct (volatileKind.system.run actions).stored)) ∧
    ∀ actions : List (ImmutableCall Body), immutableKind.system.Legal actions →
      (ReopensSame FileImmutable.openStore (immutableKind.system.run actions) ↔
        SlotsDistinct (immutableKind.system.run actions).stored) := by
  constructor
  · intro actions hlegal
    obtain ⟨blocks, hsync, hordered⟩ := volatileKind_lawful.inSync hlegal
    rw [hsync.holds.stored_eq]
    have hsurvives : FileStore.Survives (lookupIn blocks)
        (volatileKind.system.run actions).restart.files := hsync.settled.survives
    exact reopensSame_iff hsync hordered fun orders =>
      FileStore.openStore_performed hsurvives orders
  · intro actions hlegal
    obtain ⟨blocks, hsync, hordered⟩ := immutableKind_lawful.inSync hlegal
    rw [hsync.holds.stored_eq]
    have hsettled : FileStore.Settled (lookupIn blocks)
        (immutableKind.system.run actions).restart.files := hsync.settled
    exact reopensSame_iff hsync hordered fun orders =>
      FileStore.openImmutable_performed hsettled orders

/-! ## An epoch boundary block and the block after it -/

instance (store : FileStore Body) (block : Block Body) : Decidable (NotBeforeTip store block) := by
  unfold NotBeforeTip
  split <;> infer_instance

instance {Call : Type} (kind : StoreKind Body Call) (store : FileStore Body) (call : Call) :
    Decidable (kind.system.enabled store call) :=
  match hadded : kind.added call with
  | none => .isTrue fun block hblock => by rw [hadded] at hblock; cases hblock
  | some block => decidable_of_iff (NotBeforeTip store block)
      ⟨fun hblock other hother => by rw [hadded] at hother; cases hother; exact hblock,
        fun hall => hall block hadded⟩

/-- A boundary block and a main block of one slot. -/
def boundaryBlock : Block Unit :=
  { header := { hash := 1, prevHash := 0, slotNo := 5, blockNo := 1 }, body := () }

def mainBlock : Block Unit :=
  { header := { hash := 2, prevHash := 1, slotNo := 5, blockNo := 2 }, body := () }

def nextBlock : Block Unit :=
  { header := { hash := 3, prevHash := 2, slotNo := 6, blockNo := 3 }, body := () }

/-- A map that is walked backwards. -/
def reversedOrders : Orders :=
  { plainOrders with values := List.reverse, values_perm := List.reverse_perm }

/-- Blocks of two slots come back in their order. -/
theorem mainAndNext_reopen :
    (ReopensSame FileVolatile.openStore
        (volatileKind.system.run [.addBlock mainBlock, .addBlock nextBlock]) ↔
      SlotsDistinct (volatileKind.system.run [.addBlock mainBlock, .addBlock nextBlock]).stored) ∧
    (ReopensSame FileImmutable.openStore
        (immutableKind.system.run [.appendBlock mainBlock, .appendBlock nextBlock]) ↔
      SlotsDistinct
        (immutableKind.system.run [.appendBlock mainBlock, .appendBlock nextBlock]).stored) :=
  ⟨reopens_iff_slots_distinct.1 _
      (TransitionSystem.legal_of_legalFrom _ (by decide +kernel)),
    reopens_iff_slots_distinct.2 _
      (TransitionSystem.legal_of_legalFrom _ (by decide +kernel))⟩

/-- Sorting by slot leaves blocks of one slot where they are. -/
theorem mergeSort_mainAndBoundary :
    [mainBlock, boundaryBlock].mergeSort bySlot = [mainBlock, boundaryBlock] :=
  List.mergeSort_of_pairwise (by decide)

/-- The boundary block and the main block change places, in both stores. -/
theorem boundaryBlock_swapped :
    volatileKind.system.Legal [.addBlock boundaryBlock, .addBlock mainBlock] ∧
    (volatileKind.system.run [.addBlock boundaryBlock, .addBlock mainBlock]).chain = [1, 2] ∧
    ((FileVolatile.openStore reversedOrders).perform (volatileKind.system.run
      [.addBlock boundaryBlock, .addBlock mainBlock]).restart).2.state.chain = [2, 1] ∧
    immutableKind.system.Legal [.appendBlock boundaryBlock, .appendBlock mainBlock] ∧
    (immutableKind.system.run [.appendBlock boundaryBlock, .appendBlock mainBlock]).chain = [1, 2] ∧
    ((FileImmutable.openStore reversedOrders).perform (immutableKind.system.run
      [.appendBlock boundaryBlock, .appendBlock mainBlock]).restart).2.state.chain = [2, 1] := by
  have hvolatile : ((FileVolatile.openStore reversedOrders).perform (volatileKind.system.run
      [.addBlock boundaryBlock, .addBlock mainBlock]).restart).2.state.chain =
      ([mainBlock, boundaryBlock].mergeSort bySlot).map blockHash := rfl
  have himmutable : ((FileImmutable.openStore reversedOrders).perform (immutableKind.system.run
      [.appendBlock boundaryBlock, .appendBlock mainBlock]).restart).2.state.chain =
      ([mainBlock, boundaryBlock].mergeSort bySlot).map blockHash := rfl
  rw [hvolatile, himmutable, mergeSort_mainAndBoundary]
  exact ⟨TransitionSystem.legal_of_legalFrom _ (by decide +kernel), by decide +kernel, rfl,
    TransitionSystem.legal_of_legalFrom _ (by decide +kernel), by decide +kernel, rfl⟩

end Yggdrasil.Storage
