import Yggdrasil.Storage.Reopening

/-!
# The file stores answer as the in-memory ones

A file store and an in-memory store get the same requests, and every call to the file system is
performed.  The volatile stores give the same answers to every request.  The immutable stores do,
except for `get_block_by_slot`: the in-memory store returns the first block of a slot, while the file
store's binary search ends at the last one (`binarySearchByKey_spec`, `getBlockBySlot_eq`).  So the
answers are the same along a run exactly if each slot that is asked for has at most one block when
it is asked for.
-/

namespace Yggdrasil.Storage

open Ledger Library

variable {Body : Type}

/-! ## Binary search -/

namespace FileImmutable

/-- Where the loop ends: no later key is at or below the target, and unless it is the first place,
its own key is. -/
theorem searchLoop_spec {keys : List SlotNo} (hsorted : keys.Pairwise (· ≤ ·)) (target : SlotNo)
    {base size : Nat} (hsize : 0 < size) (hfits : base + size ≤ keys.length)
    (hbase : base = 0 ∨ ∀ key, keys[base]? = some key → key ≤ target)
    (habove : ∀ position key, base + size ≤ position → keys[position]? = some key → target < key) :
    ∃ last, searchLoop (fun position => keys[position]?) target base size = some last ∧
      last < keys.length ∧ (last = 0 ∨ ∀ key, keys[last]? = some key → key ≤ target) ∧
      ∀ position key, last < position → keys[position]? = some key → target < key := by
  induction size using Nat.strong_induction_on generalizing base with
  | _ size ih =>
    rw [searchLoop]
    by_cases hone : size ≤ 1
    · rw [dif_pos hone]
      exact ⟨base, rfl, by omega, hbase, fun position key hposition => habove position key (by
        omega)⟩
    · rw [dif_neg hone]
      have hmiddle : base + size / 2 < keys.length := by omega
      obtain ⟨found, hfound⟩ : ∃ found, keys[base + size / 2]? = some found :=
        ⟨_, List.getElem?_eq_getElem hmiddle⟩
      simp only [hfound, Option.bind_eq_bind, Option.bind_some]
      by_cases hgreater : found > target
      · rw [if_pos hgreater]
        refine ih _ (by omega) (by omega) (by omega) hbase ?_
        -- the keys from the middle on are above the target
        intro position key hposition hkey
        rcases Nat.eq_or_lt_of_le (show base + size / 2 ≤ position by omega) with hsame | hlater
        · rw [← hsame, hfound] at hkey
          cases hkey
          exact hgreater
        · obtain ⟨hlength, hget⟩ := List.getElem?_eq_some_iff.mp hkey
          obtain ⟨_, hgetMiddle⟩ := List.getElem?_eq_some_iff.mp hfound
          have hle := List.pairwise_iff_getElem.mp hsorted _ _ hmiddle hlength hlater
          rw [hget, hgetMiddle] at hle
          exact UInt64.lt_of_lt_of_le hgreater hle
      · rw [if_neg hgreater]
        refine ih (size - size / 2) (by omega) (by omega) (by omega) (.inr ?_) ?_
        · intro key hkey
          rw [hfound] at hkey
          cases hkey
          exact UInt64.not_lt.mp hgreater
        · intro position key hposition
          exact habove position key (by omega)

variable {blocks : List (Block Body)}

/-- What a search of blocks by slot returns: the place of the last block of the slot. -/
theorem binarySearchByKey_spec (hordered : SlotOrdered blocks) (target : SlotNo) :
    ∃ position, binarySearchByKey
        (fun position => (blocks.map fun block => block.header.slotNo)[position]?)
        blocks.length target = some position ∧
      (position.bind fun position => blocks[position]?) =
        (blocks.filter fun block => block.header.slotNo == target).getLast? := by
  rw [binarySearchByKey]
  by_cases hnone : blocks.length = 0
  · rw [List.eq_nil_of_length_eq_zero hnone]
    exact ⟨none, rfl, rfl⟩
  · rw [if_neg hnone]
    have hsorted := List.pairwise_map.mpr hordered
    have hlength : (blocks.map fun block => block.header.slotNo).length = blocks.length :=
      List.length_map _
    obtain ⟨last, hloop, hlast, hbelow, habove⟩ := searchLoop_spec hsorted target
      (pos_of_ne_zero hnone) (by omega) (.inl rfl) (fun position key hposition hkey => by
        rw [List.getElem?_eq_none (by omega)] at hkey
        cases hkey)
    rw [hlength] at hlast
    obtain ⟨before, block, after, hblocks, rfl⟩ : ∃ before block after,
        blocks = before ++ block :: after ∧ before.length = last := by
      refine ⟨blocks.take last, blocks[last], blocks.drop (last + 1), ?_, ?_⟩
      · rw [← List.drop_eq_getElem_cons hlast, List.take_append_drop]
      · rw [List.length_take]
        omega
    subst hblocks
    have hkey : ((before ++ block :: after).map fun block => block.header.slotNo)[before.length]? =
        some block.header.slotNo := by simp
    have hafter : after.filter (fun other => other.header.slotNo == target) = [] := by
      rw [List.filter_eq_nil_iff]
      intro other hother
      obtain ⟨index, hindex⟩ := List.mem_iff_getElem?.mp hother
      have hlater := habove (before.length + (index + 1)) other.header.slotNo (by omega)
        (by rw [List.getElem?_map, List.getElem?_append_right (by omega)]; simp [hindex])
      simpa using (UInt64.ne_of_lt hlater).symm
    rw [hloop]
    simp only [Option.bind_eq_bind, Option.bind_some, hkey]
    by_cases hfound : block.header.slotNo = target
    · rw [if_pos hfound]
      exact ⟨some before.length, rfl, by simp [hfound, hafter]⟩
    · rw [if_neg hfound]
      refine ⟨none, rfl, ?_⟩
      -- the key here is below the target, or this is the first place
      have hbefore : before.filter (fun other => other.header.slotNo == target) = [] := by
        rw [List.filter_eq_nil_iff]
        intro other hother
        have hle := (List.pairwise_append.mp hordered).2.2 other hother block List.mem_cons_self
        rcases hbelow with hzero | hbelow
        · rw [List.eq_nil_of_length_eq_zero hzero] at hother
          exact absurd hother List.not_mem_nil
        · have hlt : block.header.slotNo < target := UInt64.lt_of_le_of_ne (hbelow _ hkey) hfound
          simpa using UInt64.ne_of_lt (UInt64.lt_of_le_of_lt hle hlt)
      simp [hfound, hbefore, hafter]

/-- **The file store returns the last block of a slot.** -/
theorem getBlockBySlot_eq {store : FileStore Body} (hholds : store.Holds blocks)
    (hordered : SlotOrdered blocks) (slot : SlotNo) :
    getBlockBySlot store slot =
      some (blocks.filter fun block => block.header.slotNo == slot).getLast? := by
  have hlookup : ∀ position : Nat, (store.chain[position]?.bind store.index.lookup) =
      blocks[position]? := by
    intro position
    rw [hholds.chain, List.getElem?_map]
    cases hblock : blocks[position]? with
    | none => rfl
    | some block =>
      have hfound : lookupIn blocks (blockHash block) = some block :=
        (lookupIn_eq_some_iff hholds.distinct).mpr ⟨List.mem_of_getElem? hblock, rfl⟩
      rw [Option.map_some, Option.bind_some, hholds.lookup, hfound]
  have hkeys : (fun position : Nat => store.chain[position]?.bind (slotOf store)) =
      fun position => (blocks.map fun block => block.header.slotNo)[position]? := by
    funext position
    rw [List.getElem?_map, ← hlookup]
    cases store.chain[position]? with
    | none | some hash => rfl
  have hlength : store.chain.length = blocks.length := by rw [hholds.chain, List.length_map]
  obtain ⟨position, hsearch, hresult⟩ := binarySearchByKey_spec hordered slot
  rw [getBlockBySlot, hkeys, hlength, hsearch]
  simp only [Option.bind_eq_bind, Option.bind_some, hlookup, hresult]
  rfl

end FileImmutable

variable {blocks : List (Block Body)}

/-- The first and the last block of a slot are one block exactly if the slot has at most one. -/
theorem find?_eq_getLast?_filter_iff (hnodup : blocks.Nodup) (test : Block Body → Bool) :
    (blocks.filter test).getLast? = blocks.find? test ↔ (blocks.filter test).length ≤ 1 := by
  rw [← List.head?_filter]
  have hdistinct : (blocks.filter test).Nodup := hnodup.filter _
  generalize blocks.filter test = matching at hdistinct
  cases matching with
  | nil => simp
  | cons first rest =>
    rcases List.eq_nil_or_concat rest with rfl | ⟨middle, last, rfl⟩
    · simp
    · rw [List.concat_eq_append] at hdistinct ⊢
      have hne : last ≠ first := fun hsame =>
        (List.nodup_cons.mp hdistinct).1 (by simp [hsame])
      rw [← List.cons_append, List.getLast?_concat]
      simp [hne]

/-! ## Requests and replies -/

/-- What a store answers. -/
inductive Reply (Body : Type) where
  | done (result : Except StorageError Unit)
  | count (result : Except StorageError Nat)
  | block (found : Option (Block Body))
  | blocks (result : Except StorageError (List (Block Body)))
  | point (point : Point)
  | flag (answer : Bool)

/-- The answer of a file store's operation.  There is none after a panic. -/
def answer {Value : Type} (wrap : Except StorageError Value → Reply Body) :
    Ending StorageError Value → Option (Reply Body)
  | .returned value => some (wrap (.ok value))
  | .threw error => some (wrap (.error error))
  | .panicked | .stopped => none

/-- An operation of a file store with every call performed. -/
def changeFiles {Value : Type} (wrap : Except StorageError Value → Reply Body)
    (program : Disk Body Value) (store : FileStore Body) : Option (Reply Body) × FileStore Body :=
  (answer wrap (program.perform store).1, (program.perform store).2.state)

theorem changeFiles_eq {Value : Type} {program : Disk Body Value}
    {operation : List (Block Body) → Except StorageError (Value × List (Block Body))}
    (hperforms : FileStore.Performs program operation) {store : FileStore Body}
    (hsync : store.InSync blocks) (wrap : Except StorageError Value → Reply Body) :
    (changeFiles wrap program store).1 = some (wrap ((operation blocks).map Prod.fst)) ∧
      (changeFiles wrap program store).2.InSync (FileStore.listAfter operation blocks) := by
  obtain ⟨hending, hafter⟩ := hperforms.perform_eq hsync
  refine ⟨?_, hafter⟩
  rw [changeFiles, hending]
  cases operation blocks with
  | ok result | error error => rfl

/-- The operations of a volatile store. -/
inductive VolatileRequest (Body : Type) where
  | addBlock (block : Block Body)
  | getBlock (hash : HeaderHash)
  | prefixUpTo (point : Point)
  | pruneUpTo (point : Point)
  | rollbackTo (point : Point)
  | tip
  | suffixAfter (point : Point)
  | garbageCollect (slot : SlotNo)
  | blockCount

namespace VolatileRequest

def onFiles (request : VolatileRequest Body) (store : FileStore Body) :
    Option (Reply Body) × FileStore Body :=
  match request with
  | addBlock block => changeFiles .done (FileVolatile.addBlock block) store
  | getBlock hash => (some (.block (FileVolatile.getBlock store hash)), store)
  | prefixUpTo point => (some (.blocks (FileVolatile.prefixUpTo store point)), store)
  | pruneUpTo point => changeFiles .done (FileVolatile.pruneUpTo point) store
  | rollbackTo point => changeFiles .done (FileVolatile.rollbackTo point) store
  | tip => (store.tip.map .point, store)
  | suffixAfter point => (some (.blocks (.ok (FileVolatile.suffixAfter store point))), store)
  | garbageCollect slot => changeFiles .count (FileVolatile.garbageCollect slot) store
  | blockCount => (some (.count (.ok (FileVolatile.blockCount store))), store)

/-- The store after an operation that may fail. -/
def keepOnError (store : InMemoryVolatile Body) (result : Except StorageError (InMemoryVolatile Body)) :
    Reply Body × InMemoryVolatile Body :=
  match result with
  | .ok next => (.done (.ok ()), next)
  | .error error => (.done (.error error), store)

def inMemory (request : VolatileRequest Body) (store : InMemoryVolatile Body) :
    Reply Body × InMemoryVolatile Body :=
  match request with
  | addBlock block => keepOnError store (store.addBlock block)
  | getBlock hash => (.block (store.getBlock hash), store)
  | prefixUpTo point => (.blocks (store.prefixUpTo point), store)
  | pruneUpTo point => keepOnError store (store.pruneUpTo point)
  | rollbackTo point => (.done (.ok ()), store.rollbackTo point)
  | tip => (.point store.tip, store)
  | suffixAfter point => (.blocks (.ok (store.suffixAfter point)), store)
  | garbageCollect slot =>
    (.count (.ok (store.garbageCollect slot).1), (store.garbageCollect slot).2)
  | blockCount => (.count (.ok store.blockCount), store)

end VolatileRequest

/-- The operations of an immutable store. -/
inductive ImmutableRequest (Body : Type) where
  | appendBlock (block : Block Body)
  | getTip
  | getBlock (hash : HeaderHash)
  | containsBlock (hash : HeaderHash)
  | suffixAfter (point : Point)
  | iterAfter (point : Point)
  | len
  | isEmpty
  | getBlockBySlot (slot : SlotNo)
  | trimBeforeSlot (slot : SlotNo)
  | trimAfterSlot (slot : SlotNo)

namespace ImmutableRequest

def onFiles (request : ImmutableRequest Body) (store : FileStore Body) :
    Option (Reply Body) × FileStore Body :=
  match request with
  | appendBlock block => changeFiles .done (FileImmutable.appendBlock block) store
  | getTip => ((FileImmutable.getTip store).map .point, store)
  | getBlock hash => (some (.block (FileImmutable.getBlock store hash)), store)
  | containsBlock hash => (some (.flag (FileImmutable.containsBlock store hash)), store)
  | suffixAfter point => ((FileImmutable.suffixAfter store point).map .blocks, store)
  | iterAfter point => ((FileImmutable.iterAfter store point).map .blocks, store)
  | len => (some (.count (.ok (FileImmutable.len store))), store)
  | isEmpty => (some (.flag (FileImmutable.isEmpty store)), store)
  | getBlockBySlot slot => ((FileImmutable.getBlockBySlot store slot).map .block, store)
  | trimBeforeSlot slot => changeFiles .count (FileImmutable.trimBeforeSlot slot) store
  | trimAfterSlot slot => changeFiles .count (FileImmutable.trimAfterSlot slot) store

def inMemory (request : ImmutableRequest Body) (store : InMemoryImmutable Body) :
    Reply Body × InMemoryImmutable Body :=
  match request with
  | appendBlock block =>
    match store.appendBlock block with
    | .ok next => (.done (.ok ()), next)
    | .error error => (.done (.error error), store)
  | getTip => (.point store.getTip, store)
  | getBlock hash => (.block (store.getBlock hash), store)
  | containsBlock hash => (.flag (store.containsBlock hash), store)
  | suffixAfter point => (.blocks (store.suffixAfter point), store)
  | iterAfter point => (.blocks (store.iterAfter point), store)
  | len => (.count (.ok store.len), store)
  | isEmpty => (.flag store.isEmpty, store)
  | getBlockBySlot slot => (.block (store.getBlockBySlot slot), store)
  | trimBeforeSlot slot =>
    (.count (.ok (store.trimBeforeSlot slot).1), (store.trimBeforeSlot slot).2)
  | trimAfterSlot slot =>
    (.count (.ok (store.trimAfterSlot slot).1), (store.trimAfterSlot slot).2)

end ImmutableRequest

/-! ## Queries -/

section

variable {store : FileStore Body} {blocks : List (Block Body)}

theorem FileStore.Holds.indexed_eq (hholds : store.Holds blocks) {part : List (Block Body)}
    (hpart : ∀ block ∈ part, block ∈ blocks) : store.indexed (part.map blockHash) = part := by
  have hlookup : store.index.lookup = lookupIn blocks := funext hholds.lookup
  rw [FileStore.indexed, hlookup]
  exact filterMap_lookupIn hholds.distinct hpart

theorem FileStore.Holds.indexed_drop (hholds : store.Holds blocks) (position : Nat) :
    store.indexed (store.chain.drop position) = blocks.drop position := by
  rw [hholds.chain, ← List.map_drop]
  exact hholds.indexed_eq fun _ => List.mem_of_mem_drop

theorem FileStore.Holds.lookup_mem (hholds : store.Holds blocks) {block : Block Body}
    (hmem : block ∈ blocks) : store.index.lookup (blockHash block) = some block := by
  rw [hholds.lookup]
  exact (lookupIn_eq_some_iff hholds.distinct).mpr ⟨hmem, rfl⟩

theorem mapM_blockHash {find : HeaderHash → Except StorageError (Block Body)}
    {part : List (Block Body)} (hfind : ∀ block ∈ part, find (blockHash block) = .ok block) :
    (part.map blockHash).mapM find = .ok part := by
  induction part with
  | nil => rfl
  | cons block rest ih =>
    have hrest := ih fun other hother => hfind other (List.mem_cons_of_mem _ hother)
    rw [List.map_cons, List.mapM_cons, hfind block List.mem_cons_self, hrest]
    rfl

section

variable (hholds : store.Holds blocks)
include hholds

variable (point : Point)

theorem FileVolatile.prefixUpTo_eq :
    FileVolatile.prefixUpTo store point = (InMemoryVolatile.mk blocks).prefixUpTo point := by
  cases point with
  | origin => rfl
  | blockPoint slot hash =>
    simp only [FileVolatile.prefixUpTo, InMemoryVolatile.prefixUpTo, hholds.findIdx?]
    cases blocks.findIdx? (hasHash hash) with
    | none => rfl
    | some position =>
      dsimp only
      rw [hholds.chain, ← List.map_take]
      refine mapM_blockHash fun block hmem => ?_
      rw [hholds.lookup_mem (List.mem_of_mem_take hmem)]

theorem FileVolatile.suffixAfter_eq :
    FileVolatile.suffixAfter store point = (InMemoryVolatile.mk blocks).suffixAfter point := by
  cases point with
  | origin => exact hholds.stored_eq
  | blockPoint slot hash =>
    simp only [FileVolatile.suffixAfter, InMemoryVolatile.suffixAfter, hholds.findIdx?]
    cases blocks.findIdx? (hasHash hash) with
    | none => rfl
    | some position =>
      dsimp only
      rw [hholds.indexed_drop]
      split_ifs with hinside
      · rfl
      · exact List.drop_eq_nil_of_le (by omega)

theorem FileImmutable.slotOf_eq {block : Block Body} (hmem : block ∈ blocks) :
    FileImmutable.slotOf store (blockHash block) = some block.header.slotNo := by
  rw [FileImmutable.slotOf, hholds.lookup_mem hmem]
  rfl

theorem FileImmutable.resolveSuffixStart_eq :
    FileImmutable.resolveSuffixStart store point =
      some ((InMemoryImmutable.mk blocks).resolveSuffixStart point) := by
  cases point with
  | origin => rfl
  | blockPoint slot hash =>
    simp only [FileImmutable.resolveSuffixStart, InMemoryImmutable.resolveSuffixStart,
      hholds.findIdx?]
    rw [hholds.chain, List.head?_map, List.getLast?_map, List.length_map]
    cases hfirst : blocks.head? with
    | none => rfl
    | some first =>
      cases hlast : blocks.getLast? with
      | none => rfl
      | some last =>
        have hfirstSlot := FileImmutable.slotOf_eq hholds (List.mem_of_head? hfirst)
        have hlastSlot := FileImmutable.slotOf_eq hholds (List.mem_of_getLast? hlast)
        simp only [Option.map_some, hfirstSlot, hlastSlot, Option.bind_eq_bind,
          Option.bind_some]
        by_cases hbefore : slot < first.header.slotNo
        · rw [if_pos hbefore, if_pos hbefore]
          rfl
        · rw [if_neg hbefore, if_neg hbefore]
          cases blocks.findIdx? (hasHash hash) with
          | some position => rfl
          | none =>
            split_ifs <;> rfl

theorem FileImmutable.suffixAfter_eq :
    FileImmutable.suffixAfter store point =
      some ((InMemoryImmutable.mk blocks).suffixAfter point) := by
  rw [FileImmutable.suffixAfter, FileImmutable.resolveSuffixStart_eq hholds, Option.map_some,
    InMemoryImmutable.suffixAfter, funext hholds.indexed_drop]

end

/-! ## Steps -/

/-- The volatile stores give one answer and stay in step. -/
theorem VolatileRequest.simulates (hsync : store.InSync blocks) (request : VolatileRequest Body) :
    (request.onFiles store).1 = some (request.inMemory { blocks }).1 ∧
      (request.onFiles store).2.InSync (request.inMemory { blocks }).2.blocks := by
  cases request with
  | addBlock block =>
    obtain ⟨hreply, hnext⟩ :=
      changeFiles_eq (FileStore.appendBlock_refines block).performs hsync .done
    simp only [FileStore.listAfter] at hnext
    simp only [inMemory]
    cases hadd : (InMemoryVolatile.mk blocks).addBlock block with
    | ok next | error error =>
      rw [hadd] at hreply hnext
      exact ⟨hreply, hnext⟩
  | getBlock hash => exact ⟨congrArg (some ∘ Reply.block) (hsync.holds.lookup hash), hsync⟩
  | prefixUpTo point =>
    exact ⟨congrArg (some ∘ Reply.blocks) (FileVolatile.prefixUpTo_eq hsync.holds point), hsync⟩
  | pruneUpTo point =>
    obtain ⟨hreply, hnext⟩ :=
      changeFiles_eq (FileVolatile.pruneUpTo_refines point).performs hsync .done
    simp only [FileStore.listAfter] at hnext
    simp only [inMemory]
    cases hprune : (InMemoryVolatile.mk blocks).pruneUpTo point with
    | ok next | error error =>
      rw [hprune] at hreply hnext
      exact ⟨hreply, hnext⟩
  | rollbackTo point =>
    exact changeFiles_eq (FileVolatile.rollbackTo_refines point).performs hsync .done
  | tip =>
    refine ⟨?_, hsync⟩
    simp only [onFiles, hsync.holds.tip_eq]
    rfl
  | suffixAfter point =>
    refine ⟨?_, hsync⟩
    simp only [onFiles, FileVolatile.suffixAfter_eq hsync.holds]
    rfl
  | garbageCollect slot =>
    exact changeFiles_eq (FileVolatile.garbageCollect_refines slot).performs hsync .count
  | blockCount =>
    refine ⟨?_, hsync⟩
    simp only [onFiles, FileVolatile.blockCount, hsync.holds.chain, List.length_map]
    rfl

/-- The slot a request asks for, if it asks for the block of a slot. -/
def ImmutableRequest.askedSlot : ImmutableRequest Body → Option SlotNo
  | getBlockBySlot slot => some slot
  | _ => none

/-- A slot that is asked for has at most one block. -/
def SlotUnambiguous (blocks : List (Block Body)) (request : ImmutableRequest Body) : Prop :=
  ∀ slot ∈ request.askedSlot,
    (blocks.filter fun block => block.header.slotNo == slot).length ≤ 1

/-- The immutable stores stay in step, and give one answer exactly if a slot that is asked for has
at most one block. -/
theorem ImmutableRequest.simulates (hsync : store.InSync blocks) (hordered : SlotOrdered blocks)
    (request : ImmutableRequest Body) :
    ((request.onFiles store).1 = some (request.inMemory { blocks }).1 ↔
        SlotUnambiguous blocks request) ∧
      (request.onFiles store).2.InSync (request.inMemory { blocks }).2.blocks := by
  have hother : request.askedSlot = none → SlotUnambiguous blocks request := by
    intro hnone slot hslot
    rw [hnone] at hslot
    cases hslot
  cases request with
  | appendBlock block =>
    obtain ⟨hreply, hnext⟩ := changeFiles_eq (ImmutableCall.appendBlock block).performs hsync .done
    simp only [FileStore.listAfter, ImmutableCall.effect] at hreply hnext
    simp only [inMemory]
    cases hadd : (InMemoryImmutable.mk blocks).appendBlock block with
    | ok next | error error =>
      rw [hadd] at hreply hnext
      exact ⟨iff_of_true hreply (hother rfl), hnext⟩
  | getTip =>
    refine ⟨iff_of_true ?_ (hother rfl), hsync⟩
    simp only [onFiles, FileImmutable.getTip, hsync.holds.tip_eq]
    rfl
  | getBlock hash =>
    exact ⟨iff_of_true (congrArg (some ∘ Reply.block) (hsync.holds.lookup hash)) (hother rfl),
      hsync⟩
  | containsBlock hash =>
    refine ⟨iff_of_true ?_ (hother rfl), hsync⟩
    have hcontains : FileImmutable.containsBlock store hash =
        (InMemoryImmutable.mk blocks).containsBlock hash := by
      rw [FileImmutable.containsBlock, hsync.holds.lookup, Bool.eq_iff_iff, lookupIn_isSome_iff]
      exact (any_hasHash_iff blocks hash).symm
    exact congrArg (some ∘ Reply.flag) hcontains
  | suffixAfter point =>
    refine ⟨iff_of_true ?_ (hother rfl), hsync⟩
    simp only [onFiles, FileImmutable.suffixAfter_eq hsync.holds]
    rfl
  | iterAfter point =>
    refine ⟨iff_of_true ?_ (hother rfl), hsync⟩
    have hiter : FileImmutable.iterAfter store point =
        some ((InMemoryImmutable.mk blocks).iterAfter point) :=
      FileImmutable.suffixAfter_eq hsync.holds point
    simp only [onFiles, hiter]
    rfl
  | len =>
    refine ⟨iff_of_true ?_ (hother rfl), hsync⟩
    simp only [onFiles, FileImmutable.len, hsync.holds.chain, List.length_map]
    rfl
  | isEmpty =>
    refine ⟨iff_of_true ?_ (hother rfl), hsync⟩
    simp only [onFiles, FileImmutable.isEmpty, FileImmutable.len, hsync.holds.chain,
      List.length_map]
    rfl
  | getBlockBySlot slot =>
    refine ⟨?_, hsync⟩
    simp only [onFiles, FileImmutable.getBlockBySlot_eq hsync.holds hordered, inMemory,
      Option.map_some, Option.some.injEq, Reply.block.injEq, InMemoryImmutable.getBlockBySlot]
    rw [find?_eq_getLast?_filter_iff hsync.nodup]
    constructor
    · rintro hone other ⟨⟩
      exact hone
    · exact fun hslot => hslot slot rfl
  | trimBeforeSlot slot =>
    obtain ⟨hreply, hnext⟩ :=
      changeFiles_eq (FileImmutable.trimBeforeSlot_performs slot) hsync .count
    exact ⟨iff_of_true hreply (hother rfl), hnext⟩
  | trimAfterSlot slot =>
    obtain ⟨hreply, hnext⟩ :=
      changeFiles_eq (FileImmutable.trimAfterSlot_performs slot) hsync .count
    exact ⟨iff_of_true hreply (hother rfl), hnext⟩

end

/-! ## Runs -/

/-- The two volatile stores side by side. -/
def volatilePair : TransitionSystem (FileStore Body × InMemoryVolatile Body)
    (VolatileRequest Body) where
  start := (FileStore.empty, { blocks := [] })
  enabled _ _ := True
  step stores request := ((request.onFiles stores.1).2, (request.inMemory stores.2).2)

/-- The two immutable stores side by side, with blocks appended in the order of their slots. -/
def immutablePair : TransitionSystem (FileStore Body × InMemoryImmutable Body)
    (ImmutableRequest Body) where
  start := (FileStore.empty, { blocks := [] })
  enabled stores request :=
    match request with
    | .appendBlock block => NotBeforeTip stores.1 block
    | _ => True
  step stores request := ((request.onFiles stores.1).2, (request.inMemory stores.2).2)

theorem empty_inSync : (FileStore.empty : FileStore Body).InSync [] :=
  ⟨⟨rfl, fun _ => rfl, List.nodup_nil⟩, ⟨⟨nofun, nofun, rfl⟩, rfl, fun _ => rfl⟩⟩

theorem volatilePair_inSync (actions : List (VolatileRequest Body)) :
    (volatilePair.run actions).1.InSync (volatilePair.run actions).2.blocks :=
  volatilePair.invariant_of_legal
    (fun stores => stores.1.InSync stores.2.blocks)
    empty_inSync (fun _ request _ hsync => (request.simulates hsync).2) fun _ _ _ => trivial

theorem immutablePair_inSync {actions : List (ImmutableRequest Body)}
    (hlegal : immutablePair.Legal actions) :
    (immutablePair.run actions).1.InSync (immutablePair.run actions).2.blocks ∧
      SlotOrdered (immutablePair.run actions).2.blocks := by
  refine immutablePair.invariant_of_legal
    (fun stores => stores.1.InSync stores.2.blocks ∧
      SlotOrdered stores.2.blocks) ⟨empty_inSync, List.Pairwise.nil⟩ ?_ hlegal
  rintro stores request henabled ⟨hsync, hordered⟩
  refine ⟨(request.simulates hsync hordered).2, ?_⟩
  change SlotOrdered (request.inMemory stores.2).2.blocks
  cases request with
  | appendBlock block =>
    have hafter := StoreKind.slotOrdered_append hsync.holds hordered henabled
    simp only [ImmutableRequest.inMemory, InMemoryImmutable.appendBlock]
    split_ifs
    · exact hordered
    · exact hafter
  | trimBeforeSlot slot | trimAfterSlot slot => exact hordered.sublist List.filter_sublist
  | getTip | getBlock hash => exact hordered
  | containsBlock hash | suffixAfter point => exact hordered
  | iterAfter point | len => exact hordered
  | isEmpty | getBlockBySlot slot => exact hordered

/-- **The stores answer alike.**  The volatile ones always do; the immutable ones do along a run
exactly if every slot that is asked for has at most one block at that moment. -/
theorem replies_equal_iff :
    (∀ (done : List (VolatileRequest Body)) (request : VolatileRequest Body),
      (request.onFiles (volatilePair.run done).1).1 =
        some (request.inMemory (volatilePair.run done).2).1) ∧
    ∀ actions : List (ImmutableRequest Body), immutablePair.Legal actions →
      ((∀ done request, done ++ [request] <+: actions →
          (request.onFiles (immutablePair.run done).1).1 =
            some (request.inMemory (immutablePair.run done).2).1) ↔
        ∀ done request, done ++ [request] <+: actions →
          SlotUnambiguous (immutablePair.run done).2.blocks request) := by
  refine ⟨fun done request => (request.simulates (volatilePair_inSync done)).1, ?_⟩
  intro actions hlegal
  refine forall_congr' fun done => forall_congr' fun request => forall_congr' fun hvisited => ?_
  obtain ⟨hsync, hordered⟩ :=
    immutablePair_inSync (hlegal.restrict ((List.prefix_append _ _).trans hvisited))
  exact (request.simulates hsync hordered).1

/-! ## The slot of a boundary block -/

instance (stores : FileStore Body × InMemoryImmutable Body) (request : ImmutableRequest Body) :
    Decidable (immutablePair.enabled stores request) :=
  match request with
  | .appendBlock block => inferInstanceAs (Decidable (NotBeforeTip stores.1 block))
  | .getTip | .getBlock _ | .containsBlock _ | .suffixAfter _ | .iterAfter _ | .len | .isEmpty
  | .getBlockBySlot _ | .trimBeforeSlot _ | .trimAfterSlot _ => inferInstanceAs (Decidable True)

/-- Two blocks of different slots, and a query for one of them. -/
def unambiguousRun : List (ImmutableRequest Unit) :=
  [.appendBlock mainBlock, .appendBlock nextBlock, .getBlockBySlot 5]

theorem unambiguousRun_replies :
    (∀ done request, done ++ [request] <+: unambiguousRun →
        (request.onFiles (immutablePair.run done).1).1 =
          some (request.inMemory (immutablePair.run done).2).1) ↔
      ∀ done request, done ++ [request] <+: unambiguousRun →
        SlotUnambiguous (immutablePair.run done).2.blocks request :=
  replies_equal_iff.2 unambiguousRun
    (TransitionSystem.legal_of_legalFrom _ (by decide +kernel))

/-- Asked for the slot of a boundary block, the file store returns the main block and the in-memory
store the boundary block. -/
theorem boundarySlot_replies_differ :
    immutablePair.Legal [.appendBlock boundaryBlock, .appendBlock mainBlock, .getBlockBySlot 5] ∧
      FileImmutable.getBlockBySlot
          (immutablePair.run [.appendBlock boundaryBlock, .appendBlock mainBlock]).1 5 =
        some (some mainBlock) ∧
      (immutablePair.run [.appendBlock boundaryBlock, .appendBlock mainBlock]).2.getBlockBySlot 5 =
        some boundaryBlock := by
  refine ⟨TransitionSystem.legal_of_legalFrom _ (by decide +kernel), ?_, by decide +kernel⟩
  have hlegal : immutablePair.Legal [.appendBlock boundaryBlock, .appendBlock mainBlock] :=
    TransitionSystem.legal_of_legalFrom _ (by decide +kernel)
  obtain ⟨hsync, hordered⟩ := immutablePair_inSync hlegal
  rw [FileImmutable.getBlockBySlot_eq hsync.holds hordered]
  decide +kernel

end Yggdrasil.Storage
