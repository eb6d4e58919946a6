import Yggdrasil.Storage.FileOperations

/-!
# The volatile store is crash atomic

An operation of `FileVolatile` may be cut off before any of its calls to the file system, and so may
the `open`s that follow.  The first `open` that ends finds the blocks from before the operation or
the blocks from after it: an operation changes the surviving blocks of its directory at one call,
and an `open` at none (`FileOperations`, `FileOpening`).
-/

namespace Yggdrasil.Storage

open Ledger Library

variable {Body : Type}

namespace FileStore

/-! ## What an opened store holds -/

section

variable {target : HeaderHash → Option (Block Body)}

/-- Blocks looked up under distinct hashes have distinct hashes. -/
theorem nodup_filterMap_hashes (hhash : ∀ hash block, target hash = some block →
    block.header.hash = hash) {hashes : List HeaderHash} (hnodup : hashes.Nodup) :
    ((hashes.filterMap target).map blockHash).Nodup := by
  induction hashes with
  | nil => exact List.nodup_nil
  | cons hash rest ih =>
    obtain ⟨hnew, hrest⟩ := List.nodup_cons.mp hnodup
    cases hfound : target hash with
    | none => rw [List.filterMap_cons_none hfound]; exact ih hrest
    | some block =>
      rw [List.filterMap_cons_some hfound, List.map_cons, List.nodup_cons]
      refine ⟨fun hmem => hnew ?_, ih hrest⟩
      obtain ⟨other, hother, hsame⟩ := List.mem_map.mp hmem
      obtain ⟨key, hkey, htarget⟩ := List.mem_filterMap.mp hother
      have hequal : key = hash := (hhash key other htarget).symm.trans
        (hsame.trans (hhash hash block hfound))
      exact hequal ▸ hkey

theorem lookup_load {blocks : List (Block Body)} (hdistinct : (blocks.map blockHash).Nodup)
    (store : FileStore Body) (hash : HeaderHash) :
    (load blocks store).index.lookup hash = lookupIn blocks hash := by
  change (KeyedMap.insertAll (blocks.map fun block => (block.header.hash, block)) ∅).lookup hash = _
  induction blocks using List.reverseRecOn with
  | nil => rfl
  | append_singleton front block ih =>
    rw [List.map_append, List.nodup_append] at hdistinct
    have hnew : block.header.hash ∉ front.map blockHash := fun hmem =>
      hdistinct.2.2 _ hmem _ (List.mem_map_of_mem (List.mem_singleton_self block)) rfl
    rw [lookupIn_append_singleton hnew, ← ih hdistinct.1, KeyedMap.insertAll, List.map_append,
      List.foldl_append]
    by_cases hsame : hash = block.header.hash
    · rw [if_pos hsame, hsame]
      exact AList.lookup_insert _
    · rw [if_neg hsame]
      exact AList.lookup_insert_ne hsame

/-- The blocks of some hashes in the order in which a map of them is walked, sorted by slot. -/
def listedBlocks (orders : Orders) (target : HeaderHash → Option (Block Body))
    (hashes : List HeaderHash) : List (Block Body) :=
  ((orders.values hashes).filterMap target).mergeSort
    fun a b => decide (a.header.slotNo ≤ b.header.slotNo)

theorem perm_listedBlocks (orders : Orders) (hashes : List HeaderHash) :
    (listedBlocks orders target hashes).Perm (hashes.filterMap target) :=
  (List.mergeSort_perm _ _).trans ((orders.values_perm hashes).filterMap target)

/-- **An opened store is in step** with the blocks of its directory, listed by slot. -/
theorem Opened.inSync {orders : Orders} {store : FileStore Body}
    (hopened : Opened orders target store) :
    ∃ hashes : List HeaderHash, hashes.Nodup ∧ (∀ hash, hash ∈ hashes ↔ (target hash).isSome = true)
      ∧
      target = lookupIn (listedBlocks orders target hashes) ∧
      store.InSync (listedBlocks orders target hashes) := by
  obtain ⟨found, hfound, hmemory⟩ := hopened.loaded
  have hhash : ∀ hash block, target hash = some block → block.header.hash = hash :=
    fun hash block hblock => hash_of_blockOf hopened.settled.wellNamed
      ((hopened.settled.blocks hash).trans hblock)
  have hkeys : ∀ hash, hash ∈ found.keys ↔ (target hash).isSome = true := by
    intro hash
    rw [← hfound, Option.isSome_map, AList.lookup_isSome]
    rfl
  have hsorted : sortedBlocks orders found = listedBlocks orders target found.keys := by
    rw [sortedBlocks, listedBlocks]
    refine congrArg (fun listed : List (Block Body) => listed.mergeSort _) ?_
    exact congrArg (List.filterMap · _) (funext hfound)
  have hperm : (listedBlocks orders target found.keys).Perm (found.keys.filterMap target) :=
    perm_listedBlocks orders found.keys
  have hdistinct := (hperm.map blockHash).nodup_iff.mpr (nodup_filterMap_hashes hhash
    found.keys_nodup)
  have htarget : target = lookupIn (listedBlocks orders target found.keys) := by
    funext hash
    ext block
    rw [lookupIn_eq_some_iff hdistinct, hperm.mem_iff, List.mem_filterMap]
    constructor
    · intro hblock
      exact ⟨⟨hash, (hkeys hash).mpr (by rw [hblock]; rfl), hblock⟩, hhash hash block hblock⟩
    · rintro ⟨⟨key, -, hblock⟩, rfl⟩
      rwa [hhash key block hblock]
  rw [hsorted] at hmemory
  refine ⟨found.keys, found.keys_nodup, hkeys, htarget, ⟨hmemory.1, fun hash => ?_, hdistinct⟩, ?_⟩
  · rw [hmemory.2, lookup_load hdistinct]
  · rw [← htarget]
    exact hopened.settled

end

end FileStore

/-! ## Operations, and `open`s that are cut off -/

/-- The operations that change a volatile store. -/
inductive VolatileCall (Body : Type) where
  | addBlock (block : Block Body)
  | pruneUpTo (point : Point)
  | rollbackTo (point : Point)
  | garbageCollect (slot : SlotNo)

namespace VolatileCall

/-- The operation on a file store.  The number of blocks that a garbage collection returns is
dropped. -/
def program : VolatileCall Body → Disk Body Unit
  | addBlock block => FileVolatile.addBlock block
  | pruneUpTo point => FileVolatile.pruneUpTo point
  | rollbackTo point => FileVolatile.rollbackTo point
  | garbageCollect slot => do
    let _ ← FileVolatile.garbageCollect slot
    pure ()

/-- The operation on the list of blocks. -/
def effect : VolatileCall Body → List (Block Body) → Except StorageError (Unit × List (Block Body))
  | addBlock block, blocks =>
    ((InMemoryVolatile.mk blocks).addBlock block).map fun next => ((), next.blocks)
  | pruneUpTo point, blocks =>
    ((InMemoryVolatile.mk blocks).pruneUpTo point).map fun next => ((), next.blocks)
  | rollbackTo point, blocks => .ok ((), ((InMemoryVolatile.mk blocks).rollbackTo point).blocks)
  | garbageCollect slot, blocks =>
    .ok ((), ((InMemoryVolatile.mk blocks).garbageCollect slot).2.blocks)

theorem refines (call : VolatileCall Body) : FileStore.Refines call.program call.effect := by
  cases call with
  | addBlock block => exact FileStore.appendBlock_refines block
  | pruneUpTo point => exact FileVolatile.pruneUpTo_refines point
  | rollbackTo point => exact FileVolatile.rollbackTo_refines point
  | garbageCollect slot =>
    intro store blocks hsync
    refine (FileVolatile.garbageCollect_refines slot store blocks hsync).seq
      (fun count next hnext => ?_) (fun _ _ hthrew => nomatch hthrew.1) fun _ hstopped => hstopped
    obtain ⟨after, hafter, hsync⟩ := hnext
    cases hafter
    exact .pure ⟨_, rfl, hsync⟩

end VolatileCall

/-- Verdicts that refuse no call. -/
def AllPerformed (verdicts : List Verdict) : Prop :=
  ∀ verdict ∈ verdicts, FileStore.Performed verdict

instance : DecidablePred FileStore.Performed := fun _ => inferInstanceAs (Decidable (_ ≠ _))

instance : DecidablePred AllPerformed := fun verdicts =>
  inferInstanceAs (Decidable (∀ verdict ∈ verdicts, FileStore.Performed verdict))

/-- The states of a volatile store in a process: a directory in which every block is stored under
its own hash has been opened, and operations have been run to their end. -/
inductive Live : FileStore Body → Prop
  | opened (left : FileStore Body) (hnamed : FileStore.WellNamed left.files) (orders : Orders)
      (verdicts : List Verdict) (hperformed : AllPerformed verdicts)
      (hreturned : (FileVolatile.openStore orders { state := left.restart, verdicts }).1 =
        .returned ()) :
      Live (FileVolatile.openStore orders { state := left.restart, verdicts }).2.state
  | called (store : FileStore Body) (hlive : Live store) (call : VolatileCall Body)
      (verdicts : List Verdict) (hperformed : AllPerformed verdicts)
      (hended : (call.program { state := store, verdicts }).1 ≠ .stopped) :
      Live (call.program { state := store, verdicts }).2.state

/-- Any number of `open`s, each in a new process and each cut off. -/
inductive StoppedOpens : FileStore Body → FileStore Body → Prop
  | none (store : FileStore Body) : StoppedOpens store store
  | more (store : FileStore Body) (orders : Orders) (verdicts : List Verdict)
      (hperformed : AllPerformed verdicts)
      (hstopped : (FileVolatile.openStore orders { state := store.restart, verdicts }).1 = .stopped)
      (last : FileStore Body)
      (hrest : StoppedOpens
        (FileVolatile.openStore orders { state := store.restart, verdicts }).2.state last) :
      StoppedOpens store last

section

variable {target : HeaderHash → Option (Block Body)}

variable {store : FileStore Body}

theorem opened_of_returned (hsurvives : FileStore.Survives target store.files) {orders : Orders}
    {verdicts : List Verdict} (hperformed : AllPerformed verdicts)
    (hreturned : (FileVolatile.openStore orders { state := store.restart, verdicts }).1 =
      .returned ()) :
    FileStore.Opened orders target
      (FileVolatile.openStore orders { state := store.restart, verdicts }).2.state := by
  have hrestart : FileStore.Survives target store.restart.files := hsurvives
  have hkept := FileStore.openStore_performed hrestart orders verdicts hperformed
  rw [Promise.Kept, hreturned] at hkept
  exact hkept.1

theorem StoppedOpens.survives {last : FileStore Body} (hopens : StoppedOpens store last)
    (hsurvives : FileStore.Survives target store.files) : FileStore.Survives target last.files := by
  induction hopens with
  | none store => exact hsurvives
  | more store orders verdicts hperformed hstopped last hrest ih =>
    have hrestart : FileStore.Survives target store.restart.files := hsurvives
    have hkept := FileStore.openStore_performed hrestart orders verdicts hperformed
    rw [Promise.Kept, hstopped] at hkept
    exact ih hkept.1

theorem Live.inSync (hlive : Live store) : ∃ blocks, store.InSync blocks := by
  induction hlive with
  | opened left hnamed orders verdicts hperformed hreturned =>
    have hsurvives : FileStore.Survives (FileStore.surviving left.files) left.files := ⟨hnamed, rfl⟩
    obtain ⟨hashes, -, -, -, hsync⟩ := (opened_of_returned hsurvives hperformed hreturned).inSync
    exact ⟨_, hsync⟩
  | called store hlive call verdicts hperformed hended ih =>
    obtain ⟨blocks, hsync⟩ := ih
    have hkept := call.refines store blocks hsync verdicts hperformed
    rcases hresult : call.program { state := store, verdicts } with ⟨ending, after⟩
    rw [hresult] at hkept hended
    cases ending with
    | returned value =>
      obtain ⟨⟨next, -, hnext⟩, -⟩ := hkept
      exact ⟨next, hnext⟩
    | threw error => exact ⟨blocks, hkept.1.2⟩
    | panicked => exact hkept.1.elim
    | stopped => exact absurd rfl hended

end

/-- **Crash atomicity.**  An operation of a volatile store is cut off before one of its calls, then
any number of `open`s are.  The first `open` that ends has exactly the blocks from before the
operation, or exactly those from after it. -/
theorem crash_atomic {store : FileStore Body} (hlive : Live store) (call : VolatileCall Body)
    {verdicts : List Verdict} (hperformed : AllPerformed verdicts)
    (hstopped : (call.program { state := store, verdicts }).1 = .stopped) {last : FileStore Body}
    (hopens : StoppedOpens (call.program { state := store, verdicts }).2.state last)
    (orders : Orders) {openVerdicts : List Verdict} (hopenPerformed : AllPerformed openVerdicts)
    (hreturned : (FileVolatile.openStore orders
      { state := last.restart, verdicts := openVerdicts }).1 = .returned ()) :
    (∀ hash, FileVolatile.getBlock (FileVolatile.openStore orders
        { state := last.restart, verdicts := openVerdicts }).2.state hash =
      FileVolatile.getBlock store hash) ∨
    ∀ hash, FileVolatile.getBlock (FileVolatile.openStore orders
        { state := last.restart, verdicts := openVerdicts }).2.state hash =
      FileVolatile.getBlock (call.program.perform store).2.state hash := by
  obtain ⟨blocks, hsync⟩ := hlive.inSync
  have hkept := call.refines store blocks hsync verdicts hperformed
  rw [Promise.Kept, hstopped] at hkept
  -- the `open` that ends has what survived the interrupted operation
  have hread : ∀ list : List (Block Body),
      FileStore.Survives (lookupIn list) (call.program { state := store, verdicts }).2.state.files →
      ∀ hash, FileVolatile.getBlock (FileVolatile.openStore orders
        { state := last.restart, verdicts := openVerdicts }).2.state hash = lookupIn list hash := by
    intro list hsurvives hash
    have hopened := opened_of_returned (hopens.survives hsurvives) hopenPerformed hreturned
    obtain ⟨hashes, -, -, htarget, hinSync⟩ := hopened.inSync
    rw [htarget]
    exact hinSync.holds.lookup hash
  rcases hkept.1 with hbefore | hafter
  · left
    intro hash
    rw [hread _ hbefore]
    exact (hsync.holds.lookup hash).symm
  · right
    intro hash
    rw [hread _ hafter]
    exact ((call.refines.performs.perform_eq hsync).2.holds.lookup hash).symm

/-! ## A block whose file has its name already -/

/-- Listings in the order in which the files were made. -/
def plainOrders : Orders where
  tmpListing := id
  blockListing := id
  values := id
  tmpListing_perm _ := .refl _
  blockListing_perm _ := .refl _
  values_perm _ := .refl _

def firstBlock : Block Unit :=
  { header := { hash := 1, prevHash := 0, slotNo := 5, blockNo := 1 }, body := () }

/-- A new store in an empty directory. -/
def newStore : FileStore Unit :=
  (FileVolatile.openStore plainOrders { state := FileStore.empty.restart, verdicts := [] }).2.state

theorem newStore_live : Live newStore :=
  .opened FileStore.empty ⟨nofun, nofun, rfl⟩ plainOrders [] (fun _ => nofun) rfl

/-- The machine stops when the block's file has its name but the directory is not synced. -/
def addVerdicts : List Verdict := List.replicate 8 .succeed ++ [.stop]

/-- What the interrupted operation leaves. -/
def interruptedAdd : FileStore Unit :=
  ((VolatileCall.addBlock firstBlock).program { state := newStore, verdicts := addVerdicts }).2.state

/-- What an `open` leaves that is stopped at its second call. -/
def interruptedOpen : FileStore Unit :=
  (FileVolatile.openStore plainOrders
    { state := interruptedAdd.restart, verdicts := [.succeed, .stop] }).2.state

theorem firstBlock_crash_atomic :
    (∀ hash, FileVolatile.getBlock (FileVolatile.openStore plainOrders
        { state := interruptedOpen.restart, verdicts := [] }).2.state hash =
      FileVolatile.getBlock newStore hash) ∨
    ∀ hash, FileVolatile.getBlock (FileVolatile.openStore plainOrders
        { state := interruptedOpen.restart, verdicts := [] }).2.state hash =
      FileVolatile.getBlock
        ((VolatileCall.addBlock firstBlock).program.perform newStore).2.state hash :=
  crash_atomic newStore_live (.addBlock firstBlock) (show AllPerformed addVerdicts by decide)
    (by decide +kernel)
    (.more interruptedAdd plainOrders [.succeed, .stop] (by decide) (by decide +kernel)
      interruptedOpen (.none _))
    plainOrders (fun _ => nofun) (by decide +kernel)

end Yggdrasil.Storage
