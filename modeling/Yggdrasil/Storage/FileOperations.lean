import Yggdrasil.Storage.FileOpening

/-!
# The operations of the file stores

A store is in step with a list of blocks if its memory and its directory both hold that list
(`InSync`).  Each operation, run with no call refused, takes a store in step with one list to a store
in step with the next; and where the machine stops on the way, the directory's surviving blocks are
those of the one list or those of the other.
-/

namespace Yggdrasil.Storage

open Ledger Library

variable {Body : Type}

/-! ## Looking a hash up in a list of blocks -/

/-- The block of a hash. -/
def lookupIn (blocks : List (Block Body)) (hash : HeaderHash) : Option (Block Body) :=
  blocks.find? (hasHash hash)

variable {blocks : List (Block Body)}

theorem lookupIn_eq_some_iff (hdistinct : (blocks.map blockHash).Nodup) {hash : HeaderHash}
    {block : Block Body} :
    lookupIn blocks hash = some block ↔ block ∈ blocks ∧ block.header.hash = hash := by
  constructor
  · intro hfound
    exact ⟨List.mem_of_find?_eq_some hfound, by simpa [hasHash] using List.find?_some hfound⟩
  · rintro ⟨hmem, rfl⟩
    obtain ⟨before, after, rfl⟩ := List.append_of_mem hmem
    have hnone : before.find? (hasHash block.header.hash) = none := by
      rw [List.find?_eq_none]
      intro other hother
      simpa [hasHash] using hash_ne_of_mem_before hdistinct hother
    rw [lookupIn, List.find?_append, hnone]
    simp [hasHash]

theorem lookupIn_isSome_iff (blocks : List (Block Body)) (hash : HeaderHash) :
    (lookupIn blocks hash).isSome = true ↔ hash ∈ blocks.map blockHash :=
  find?_hasHash_isSome_iff blocks hash

theorem lookupIn_append_singleton {block : Block Body}
    (hnew : block.header.hash ∉ blocks.map blockHash) (hash : HeaderHash) :
    lookupIn (blocks ++ [block]) hash =
      if hash = block.header.hash then some block else lookupIn blocks hash := by
  rw [lookupIn, List.find?_append]
  by_cases hsame : hash = block.header.hash
  · have hnone : blocks.find? (hasHash hash) = none := by
      rw [← Option.not_isSome_iff_eq_none, find?_hasHash_isSome_iff, hsame]
      exact hnew
    rw [hnone]
    simp [hasHash, hsame]
  · have hmiss : hasHash hash block = false := by simpa [hasHash] using Ne.symm hsame
    rw [if_neg hsame, lookupIn]
    simp [hmiss]

/-- The blocks that are left when some hashes are removed. -/
theorem lookupIn_removed {kept : List (Block Body)} {removed : List HeaderHash}
    (hdistinct : (blocks.map blockHash).Nodup) (hsublist : kept.Sublist blocks)
    (hkept : ∀ block ∈ blocks, block ∈ kept ↔ block.header.hash ∉ removed) (hash : HeaderHash) :
    lookupIn kept hash = if hash ∈ removed then none else lookupIn blocks hash := by
  have hkeptDistinct : (kept.map blockHash).Nodup := hdistinct.sublist (hsublist.map blockHash)
  ext block
  rw [lookupIn_eq_some_iff hkeptDistinct]
  constructor
  · rintro ⟨hmem, rfl⟩
    have hblocks := hsublist.subset hmem
    rw [if_neg ((hkept block hblocks).mp hmem)]
    exact (lookupIn_eq_some_iff hdistinct).mpr ⟨hblocks, rfl⟩
  · intro hfound
    split at hfound
    · cases hfound
    · rename_i hnot
      obtain ⟨hmem, rfl⟩ := (lookupIn_eq_some_iff hdistinct).mp hfound
      exact ⟨(hkept block hmem).mpr hnot, rfl⟩

namespace FileStore

/-! ## Stores in step with a list -/

/-- The memory holds the blocks, in this order. -/
structure Holds (store : FileStore Body) (blocks : List (Block Body)) : Prop where
  chain : store.chain = blocks.map blockHash
  lookup : ∀ hash, store.index.lookup hash = lookupIn blocks hash
  distinct : (blocks.map blockHash).Nodup

/-- The memory and the directory hold the blocks. -/
structure InSync (store : FileStore Body) (blocks : List (Block Body)) : Prop where
  holds : store.Holds blocks
  settled : Settled (lookupIn blocks) store.files

/-- In the directory, one list or the other survives. -/
def OneOf (before after : List (Block Body)) (store : FileStore Body) : Prop :=
  Survives (lookupIn before) store.files ∨ Survives (lookupIn after) store.files

/-- The list after an operation on it; an error changes nothing. -/
def listAfter {Value : Type}
    (operation : List (Block Body) → Except StorageError (Value × List (Block Body)))
    (blocks : List (Block Body)) : List (Block Body) :=
  match operation blocks with
  | .ok (_, after) => after
  | .error _ => blocks

/-- A program on stores does what an operation on lists does, and where the machine stops, the
list before the operation survives or the one after it. -/
def Refines {Value : Type} (program : Disk Body Value)
    (operation : List (Block Body) → Except StorageError (Value × List (Block Body))) : Prop :=
  ∀ store blocks, store.InSync blocks → Meets Performed program store
    { returned := fun value next => ∃ after, operation blocks = .ok (value, after) ∧
        next.InSync after
      threw := fun error next => operation blocks = .error error ∧ next.InSync blocks
      stopped := OneOf blocks (listAfter operation blocks) }

/-- A program on stores does what an operation on lists does, if it is run to its end. -/
def Performs {Value : Type} (program : Disk Body Value)
    (operation : List (Block Body) → Except StorageError (Value × List (Block Body))) : Prop :=
  ∀ store blocks, store.InSync blocks → Meets Performed program store
    { returned := fun value next => ∃ after, operation blocks = .ok (value, after) ∧
        next.InSync after
      threw := fun error next => operation blocks = .error error ∧ next.InSync blocks
      stopped := fun _ => True }

theorem Refines.performs {Value : Type} {program : Disk Body Value}
    {operation : List (Block Body) → Except StorageError (Value × List (Block Body))}
    (hrefines : Refines program operation) : Performs program operation :=
  fun store blocks hsync => (hrefines store blocks hsync).mono (fun _ _ hnext => hnext)
    (fun _ _ hnext => hnext) fun _ _ => trivial

/-- What a program does when every call is performed: it ends as the operation on lists does, and
leaves the store in step with the list after it. -/
theorem Performs.perform_eq {Value : Type} {program : Disk Body Value}
    {operation : List (Block Body) → Except StorageError (Value × List (Block Body))}
    (hperforms : Performs program operation) {store : FileStore Body} {blocks : List (Block Body)}
    (hsync : store.InSync blocks) :
    (program.perform store).1 =
        (match operation blocks with
          | .ok (value, _) => .returned value
          | .error error => .threw error) ∧
      (program.perform store).2.state.InSync (listAfter operation blocks) := by
  have hkept := (hperforms store blocks hsync).perform
  have hended := program.perform_ne_stopped store
  rw [listAfter]
  rcases hresult : program.perform store with ⟨ending, after⟩
  rw [hresult] at hkept hended
  cases ending with
  | returned value =>
    obtain ⟨⟨next, heffect, hnext⟩, -⟩ := hkept
    rw [heffect]
    exact ⟨rfl, hnext⟩
  | threw error =>
    obtain ⟨⟨heffect, hnext⟩, -⟩ := hkept
    rw [heffect]
    exact ⟨rfl, hnext⟩
  | panicked => exact hkept.1.elim
  | stopped => exact absurd rfl hended

section

variable {store : FileStore Body} {blocks : List (Block Body)}

variable {target : HeaderHash → Option (Block Body)} {kept : List (Block Body)}
  {removed : List HeaderHash} {next : FileStore Body}

theorem Holds.of_sameMemory (hholds : store.Holds blocks) (hsame : SameMemory store next) :
    next.Holds blocks where
  chain := hsame.1.trans hholds.chain
  lookup hash := by rw [hsame.2, hholds.lookup]
  distinct := hholds.distinct

theorem InSync.of_alike (hsync : store.InSync blocks) (halike : Alike store next) :
    next.InSync blocks where
  holds := hsync.holds.of_sameMemory halike.1
  settled := hsync.settled.of_sameFiles halike.2

/-- A step that changes neither the memory nor the files, then the rest. -/
theorem InSync.seq_alike {Value : Type} {first : Disk Body Unit} {rest : Unit → Disk Body Value}
    {promise : Promise _ _ Value} (hsync : store.InSync blocks)
    (hfirst : Stays Performed False Alike first)
    (hrest : ∀ next, InSync next blocks → Meets Performed (rest ()) next promise)
    (hstopped : ∀ next, Survives (lookupIn blocks) (files next) → promise.stopped next) :
    Meets Performed (first >>= rest) store promise :=
  hfirst.seq_quiet (fun _ _ halike => hrest _ (hsync.of_alike halike))
    fun _ halike => hstopped _ (hsync.of_alike halike).settled.survives

/-- Where a hash stands in the chain is where its block stands in the list. -/
theorem Holds.findIdx? (hholds : store.Holds blocks) (hash : HeaderHash) :
    store.chain.findIdx? (· == hash) = blocks.findIdx? (hasHash hash) := by
  rw [hholds.chain, List.findIdx?_map]
  rfl

/-! ## Appending -/

/-- The directory after a block file was put in its place. -/
theorem InSync.placed {block : Block Body} (hsync : store.InSync blocks)
    (hnew : block.header.hash ∉ blocks.map blockHash)
    (hchanged : Changed (.cbor block.header.hash) (some (.block block)) store next) :
    Settled (lookupIn (blocks ++ [block])) next.files := by
  have hother : ∀ name : FileName, name.counts = true → name ≠ .cbor block.header.hash →
      readable next.files name = readable store.files name := fun name hcounts hne => by
    rw [readable, readable, hchanged.elsewhere name hcounts hne]
  have hplaced : readable next.files (.cbor block.header.hash) = some block := by
    rw [readable, hchanged.changed]
  have hnamed := hsync.settled.wellNamed
  refine ⟨⟨fun hash found hfound => ?_, fun hash found hfound => ?_, ?_⟩, ?_, fun hash => ?_⟩
  · by_cases hsame : hash = block.header.hash
    · rw [hsame, hplaced] at hfound
      cases hfound
      exact hsame.symm
    · rw [hother _ rfl (by simpa using hsame)] at hfound
      exact hnamed.cbor hash found hfound
  · rw [hother _ rfl FileName.noConfusion] at hfound
    exact hnamed.json hash found hfound
  · rw [hother _ rfl FileName.noConfusion]
    exact hnamed.wal
  · rw [planned, hchanged.elsewhere .wal rfl FileName.noConfusion]
    exact hsync.settled.planned
  · rw [lookupIn_append_singleton hnew]
    by_cases hsame : hash = block.header.hash
    · rw [if_pos hsame, hsame, blockOf, hplaced]
      rfl
    · rw [if_neg hsame, ← hsync.settled.blocks, blockOf, blockOf,
        hother _ rfl (by simpa using hsame), hother _ rfl FileName.noConfusion]

theorem Holds.pushed {block : Block Body} (hholds : store.Holds blocks)
    (hnew : block.header.hash ∉ blocks.map blockHash) :
    Holds { store with
      chain := store.chain ++ [block.header.hash]
      index := store.index.insert block.header.hash block } (blocks ++ [block]) where
  chain := by simp [hholds.chain, blockHash]
  lookup hash := by
    rw [lookupIn_append_singleton hnew]
    by_cases hsame : hash = block.header.hash
    · rw [if_pos hsame, hsame]
      exact AList.lookup_insert _
    · rw [if_neg hsame, ← hholds.lookup]
      exact AList.lookup_insert_ne hsame
  distinct := by
    rw [List.map_append, List.nodup_append]
    refine ⟨hholds.distinct, by simp, ?_⟩
    rintro hash hmem _ hlast rfl
    rw [List.map_singleton, List.mem_singleton] at hlast
    rw [hlast] at hmem
    exact hnew hmem

/-- **Appending.**  A new block is added at the end; one whose hash is held is refused. -/
theorem appendBlock_refines (block : Block Body) :
    Refines (appendBlock block) fun blocks =>
      ((InMemoryVolatile.mk blocks).addBlock block).map fun next => ((), next.blocks) := by
  intro store blocks hsync
  have hmem : (store.index.lookup block.header.hash).isSome = true ↔
      block.header.hash ∈ blocks.map blockHash := by
    rw [hsync.holds.lookup, lookupIn_isSome_iff]
  refine .read_seq ?_
  by_cases hheld : block.header.hash ∈ blocks.map blockHash
  · have hadd : (InMemoryVolatile.mk blocks).addBlock block =
        .error (.duplicateBlock block.header.hash) := if_pos ((any_hasHash_iff _ _).mpr hheld)
    rw [if_pos (hmem.mpr hheld)]
    exact .throw ⟨by simp only [hadd, Except.map], hsync⟩
  · have hadd : (InMemoryVolatile.mk blocks).addBlock block = .ok { blocks := blocks ++ [block] } :=
      if_neg fun hany => hheld ((any_hasHash_iff _ _).mp hany)
    rw [if_neg fun hsome => hheld (hmem.mp hsome)]
    simp only [listAfter, hadd]
    refine hsync.seq_alike (markDirty_stays not_performed_fail) (fun dirty hdirty => ?_)
      fun _ => .inl
    refine (atomicWriteFile_performed rfl rfl _ dirty).seq (fun _ written hwritten => ?_)
      fun _ hstopped => ?_
    · have hsettled := hdirty.placed hheld hwritten
      refine .update_seq ?_
      have hpushed : InSync _ (blocks ++ [block]) :=
        ⟨(hdirty.holds.of_sameMemory hwritten.memory).pushed hheld, hsettled⟩
      exact (markClean_stays _).mono (fun _ _ halike => ⟨_, rfl, hpushed.of_alike halike⟩)
        (fun _ _ => False.elim ∘ And.left)
        fun _ halike => .inr (hpushed.of_alike halike).settled.survives
    · rcases hstopped with halike | hchanged
      · exact .inl (hdirty.of_alike halike).settled.survives
      · exact .inr (hdirty.placed hheld hchanged).survives

/-! ## Programs that leave the memory alone -/

section

variable {allowed : Verdict → Prop}

theorem call_keepsMemory {Value : Type} {refusal : StorageError}
    {perform : FileStore Body → Except StorageError (Value × FileStore Body)}
    (hok : ∀ store value next, perform store = .ok (value, next) → SameMemory store next) :
    Stays allowed True SameMemory (.call refusal perform) :=
  .call hok (fun _ _ _ => trivial) fun _ => trivial

variable {mayThrow : Prop}

theorem keepsMemory_of_alike {Value : Type} {program : Disk Body Value}
    (hstays : Stays allowed mayThrow Alike program) : Stays allowed mayThrow SameMemory program :=
  hstays.mono fun _ _ halike => halike.1

theorem plainCall_keepsMemory : Stays allowed True SameMemory (plainCall : Disk Body Unit) :=
  keepsMemory_of_alike (plainCall_stays fun _ => trivial)

variable (name : FileName)

theorem create_keepsMemory :
    Stays allowed True SameMemory (create name : Disk Body Unit) :=
  call_keepsMemory fun _ _ _ hok => by cases hok; exact ⟨rfl, rfl⟩

theorem writeAll_keepsMemory (content : FileContent Body) :
    Stays allowed True SameMemory (writeAll name content) :=
  call_keepsMemory fun _ _ _ hok => by cases hok; exact ⟨rfl, rfl⟩

theorem rename_keepsMemory (source target : FileName) :
    Stays allowed True SameMemory (rename source target : Disk Body Unit) := by
  refine call_keepsMemory fun store value next hok => ?_
  split at hok
  · cases hok
    exact ⟨rfl, rfl⟩
  · cases hok

theorem removeFile_keepsMemory :
    Stays allowed True SameMemory (removeFile name : Disk Body Unit) := by
  refine call_keepsMemory fun store value next hok => ?_
  split at hok
  · cases hok
    exact ⟨rfl, rfl⟩
  · cases hok

theorem syncDir_keepsMemory : Stays allowed True SameMemory (syncDir : Disk Body Unit) :=
  keepsMemory_of_alike (syncDir_stays fun _ => trivial)

theorem markDirty_keepsMemory : Stays allowed True SameMemory (markDirty : Disk Body Unit) :=
  keepsMemory_of_alike (markDirty_stays fun _ => trivial)

theorem markClean_keepsMemory :
    Stays allowed mayThrow SameMemory (markClean : Disk Body Unit) :=
  keepsMemory_of_alike markClean_stays

theorem atomicWriteFile_keepsMemory (path : FileName) (data : FileContent Body) :
    Stays allowed True SameMemory (atomicWriteFile path data) :=
  .seq (create_keepsMemory _) fun _ => .seq (writeAll_keepsMemory _ _) fun _ =>
    .seq plainCall_keepsMemory fun _ => .seq (rename_keepsMemory _ _) fun _ => syncDir_keepsMemory

theorem fileExists_keepsMemory :
    Stays allowed True SameMemory (fileExists name : Disk Body Bool) := by
  refine .seq (.attempt (call_keepsMemory fun _ _ _ hok => ?_)) fun result => ?_
  · cases hok
    exact ⟨rfl, rfl⟩
  · cases result with
    | ok found => exact .pure found
    | error reason => exact .pure false

theorem removeBlockFiles_keepsMemory (hash : HeaderHash) :
    Stays allowed mayThrow SameMemory (removeBlockFiles hash : Disk Body Unit) :=
  .seq (.ignore (removeFile_keepsMemory _)) fun _ => .ignore (removeFile_keepsMemory _)

theorem writeDeleteWal_keepsMemory (hashes : List HeaderHash) :
    Stays allowed True SameMemory (FileVolatile.writeDeleteWal hashes : Disk Body Unit) := by
  rw [FileVolatile.writeDeleteWal]
  split_ifs
  · exact .pure ()
  · exact atomicWriteFile_keepsMemory _ _

theorem clearDeleteWal_keepsMemory :
    Stays allowed True SameMemory (FileVolatile.clearDeleteWal : Disk Body Unit) :=
  .seq (.ignore (removeFile_keepsMemory _)) fun _ => syncDir_keepsMemory

theorem removeIfPresent_keepsMemory :
    Stays allowed True SameMemory (FileImmutable.removeIfPresent name : Disk Body Unit) := by
  refine .seq (fileExists_keepsMemory name) fun present => ?_
  cases present with
  | true => exact removeFile_keepsMemory name
  | false => exact .pure ()

/-- Some hashes have left the index; the chain is as before. -/
def Forgot (removed : List HeaderHash) (store next : FileStore Body) : Prop :=
  next.chain = store.chain ∧ ∀ hash, next.index.lookup hash = without removed store.index.lookup hash

theorem Forgot.of_sameMemory (hsame : SameMemory store next) : Forgot [] store next :=
  ⟨hsame.1, fun hash => by rw [hsame.2, without, if_neg List.not_mem_nil]⟩

theorem Forgot.trans {first second : List HeaderHash} {middle : FileStore Body}
    (hfirst : Forgot first store middle) (hsecond : Forgot second middle next) :
    Forgot (first ++ second) store next := by
  refine ⟨hsecond.1.trans hfirst.1, fun hash => ?_⟩
  rw [hsecond.2, without, without, hfirst.2, without]
  by_cases hmem : hash ∈ second
  · simp [hmem]
  · simp [hmem]

theorem Forgot.erase (store : FileStore Body) (hash : HeaderHash) :
    Forgot [hash] store { store with index := store.index.erase hash } := by
  refine ⟨rfl, fun other => ?_⟩
  by_cases hsame : other = hash
  · rw [without, if_pos (by simp [hsame]), hsame]
    exact AList.lookup_erase _ _
  · rw [without, if_neg (by simp [hsame])]
    exact AList.lookup_erase_ne hsame

/-- The loop of a rollback, a prune or a garbage collection forgets its hashes whatever happens. -/
theorem dropBlocks_forgets (removed : List HeaderHash) (store : FileStore Body) :
    Yields allowed (.forEach FileVolatile.dropBlock removed) store
      (fun _ => Forgot removed store) fun _ => True := by
  refine .forEach (fun rest current => ∃ done, removed = done ++ rest ∧ Forgot done store current)
    ?_ ?_ ⟨[], rfl, .of_sameMemory ⟨rfl, rfl⟩⟩
  · rintro hash rest current ⟨done, rfl, hforgot⟩
    refine (removeBlockFiles_keepsMemory hash).seq_quiet (fun _ next hsame => ?_)
      fun _ _ => trivial
    refine .update ⟨done ++ [hash], by simp, ?_⟩
    have hnext : Forgot done store next := by simpa using hforgot.trans (.of_sameMemory hsame)
    exact hnext.trans (.erase next hash)
  · rintro next ⟨done, rfl, hforgot⟩
    simpa using hforgot

end

/-! ## Deleting under a plan -/

/-- **Naming the plan is the step that deletes.**  Before it everything survives, after it only
what the plan does not name. -/
theorem writeDeleteWal_performed {before : HeaderHash → Option (Block Body)}
    (hsettled : Settled before store.files) (removed : List HeaderHash) :
    Yields Performed (FileVolatile.writeDeleteWal removed) store
      (fun _ next => SameMemory store next ∧
        Deleting removed removed (without removed before) next.files)
      fun next => Survives before next.files ∨ Survives (without removed before) next.files := by
  have hdeleting : ∀ files : Directory Body, WellNamed files → planned files = removed →
      (∀ hash, blockOf files hash = before hash) →
      Deleting removed removed (without removed before) files := by
    intro files hnamed hplanned hblocks
    refine ⟨hnamed, hplanned, fun hash hnot => ?_, fun hash hmem => if_pos hmem,
      fun hash hmem hnot => absurd hmem hnot⟩
    rw [hblocks, without, if_neg hnot]
  cases removed with
  | nil => exact .pure ⟨⟨rfl, rfl⟩, hdeleting _ hsettled.wellNamed hsettled.planned hsettled.blocks⟩
  | cons first rest =>
    have hwritten : ∀ next : FileStore Body,
        Changed .wal (some (.plan (first :: rest))) store next →
        Deleting (first :: rest) (first :: rest) (without (first :: rest) before) next.files := by
      intro next hchanged
      have hother : ∀ name : FileName, name.counts = true → name ≠ .wal →
          readable next.files name = readable store.files name := fun name hcounts hne => by
        rw [readable, readable, hchanged.elsewhere name hcounts hne]
      refine hdeleting _ ⟨fun hash block => ?_, fun hash block => ?_, ?_⟩ ?_ fun hash => ?_
      · rw [hother _ rfl FileName.noConfusion]
        exact hsettled.wellNamed.cbor hash block
      · rw [hother _ rfl FileName.noConfusion]
        exact hsettled.wellNamed.json hash block
      · rw [readable, hchanged.changed]
      · rw [planned, hchanged.changed]
      · rw [← hsettled.blocks, blockOf, blockOf, hother _ rfl FileName.noConfusion,
          hother _ rfl FileName.noConfusion]
    refine (atomicWriteFile_performed rfl rfl _ store).mono
      (fun _ next hchanged => ⟨hchanged.memory, hwritten next hchanged⟩) ?_
    rintro next (halike | hchanged)
    · exact .inl (hsettled.of_sameFiles halike.2).survives
    · exact .inr (hwritten next hchanged).survives

theorem dropBlocks_performed (hdeleting : Deleting removed removed target store.files) :
    Yields Performed (.forEach FileVolatile.dropBlock removed) store
      (fun _ next => Forgot removed store next ∧ Deleting removed [] target next.files)
      fun next => Survives target next.files := by
  refine .and (.forEach (fun rest current => (∀ hash ∈ rest, hash ∈ removed) ∧
    Deleting removed rest target current.files) ?_ (fun _ hdone => hdone.2)
    ⟨fun _ hmem => hmem, hdeleting⟩) (dropBlocks_forgets removed store)
  rintro hash rest current ⟨hmem, hcurrent⟩
  refine (removeBlockFiles_performed (hmem hash List.mem_cons_self) hcurrent).seq
    (fun _ next hnext => ?_) fun _ hstopped => hstopped
  exact .update ⟨fun other hother => hmem other (List.mem_cons_of_mem _ hother), hnext.2⟩

theorem clearDeleteWal_performed {plan : List HeaderHash}
    (hdeleting : Deleting plan [] target store.files) :
    Yields Performed FileVolatile.clearDeleteWal store
      (fun _ next => SameMemory store next ∧ Settled target next.files)
      fun next => Survives target next.files :=
  removePlan_performed hdeleting (syncDir_stays not_performed_fail)

/-- Which blocks stay when the hashes of `removed` go. -/
structure Keeps (blocks kept : List (Block Body)) (removed : List HeaderHash) : Prop where
  sublist : kept.Sublist blocks
  mem_iff : ∀ block ∈ blocks, block ∈ kept ↔ block.header.hash ∉ removed

theorem Keeps.without_eq (hkeeps : Keeps blocks kept removed)
    (hdistinct : (blocks.map blockHash).Nodup) :
    without removed (lookupIn blocks) = lookupIn kept :=
  funext fun hash => (lookupIn_removed hdistinct hkeeps.sublist hkeeps.mem_iff hash).symm

/-- The memory after some hashes were forgotten. -/
theorem Holds.forget (hholds : store.Holds blocks) (hkeeps : Keeps blocks kept removed)
    (hchain : next.chain = kept.map blockHash)
    (hindex : ∀ hash, next.index.lookup hash = without removed store.index.lookup hash) :
    next.Holds kept where
  chain := hchain
  lookup hash := by
    rw [hindex, ← hkeeps.without_eq hholds.distinct, without, without, hholds.lookup]
  distinct := hholds.distinct.sublist (hkeeps.sublist.map blockHash)

section

variable (hdistinct : (blocks.map blockHash).Nodup)
include hdistinct

/-- Two parts of the blocks: the hashes of the one go, the other stays. -/
theorem keeps_of_perm {gone : List (Block Body)} (hsublist : kept.Sublist blocks)
    (hperm : (gone ++ kept).Perm blocks) : Keeps blocks kept (gone.map blockHash) := by
  rw [← (hperm.map blockHash).nodup_iff, List.map_append, List.nodup_append] at hdistinct
  refine ⟨hsublist, fun block hmem => ⟨fun hkept hgone => ?_, fun hnot => ?_⟩⟩
  · exact hdistinct.2.2 _ hgone _ (List.mem_map_of_mem hkept) rfl
  · rw [← hperm.mem_iff, List.mem_append] at hmem
    exact hmem.resolve_left fun hgone => hnot (List.mem_map_of_mem hgone)

theorem keeps_drop (count : Nat) :
    Keeps blocks (blocks.drop count) ((blocks.take count).map blockHash) :=
  keeps_of_perm hdistinct (List.drop_sublist _ _) (by rw [List.take_append_drop])

theorem keeps_take (count : Nat) :
    Keeps blocks (blocks.take count) ((blocks.drop count).map blockHash) :=
  keeps_of_perm hdistinct (List.take_sublist _ _)
    (List.perm_append_comm.trans (by rw [List.take_append_drop]))

theorem keeps_filter (test : Block Body → Bool) :
    Keeps blocks (blocks.filter fun block => !test block)
      ((blocks.filter test).map blockHash) :=
  keeps_of_perm hdistinct List.filter_sublist (List.filter_append_perm test blocks)

end

theorem length_filter_eq_sub (blocks : List (Block Body)) (test : Block Body → Bool) :
    (blocks.filter test).length =
      blocks.length - (blocks.filter fun block => !test block).length := by
  have hsplit : blocks.length = _ := List.length_eq_length_filter_add test
  omega

/-- Cutting the chain after its blocks were forgotten. -/
theorem Holds.retained (hholds : store.Holds blocks)
    (test : Block Body → Bool)
    (hforgot : Forgot ((blocks.filter test).map blockHash) store next) :
    Holds { next with chain := next.chain.filter fun hash =>
      !((blocks.filter test).map blockHash).contains hash } (blocks.filter fun block => !test block) := by
  have hkeeps := keeps_filter hholds.distinct test
  refine hholds.forget hkeeps ?_ hforgot.2
  rw [hforgot.1, hholds.chain, List.filter_map]
  refine congrArg _ (List.filter_congr fun block hmem => ?_)
  have hiff := hkeeps.mem_iff block hmem
  rw [List.mem_filter, and_iff_right hmem] at hiff
  rw [Function.comp_apply, Bool.eq_iff_iff, hiff]
  simp [blockHash]

theorem clear_performed (hholds : store.Holds kept) {clear clean : Disk Body Unit}
    (hclear : Yields Performed clear store
      (fun _ next => SameMemory store next ∧ Settled (lookupIn kept) next.files)
      fun next => Survives (lookupIn kept) next.files)
    (hclean : Stays Performed False Alike clean) :
    Yields Performed (clear >>= fun _ => clean) store
      (fun _ next => next.InSync kept) fun next => Survives (lookupIn kept) next.files := by
  refine hclear.seq (fun _ next hnext => ?_) fun _ hstopped => hstopped
  have hsync : next.InSync kept := ⟨hholds.of_sameMemory hnext.1, hnext.2⟩
  exact (hclean next).mono (fun _ _ halike => hsync.of_alike halike) (fun _ _ => And.left)
    fun _ halike => (hsync.of_alike halike).settled.survives

end

end FileStore

/-! ## `FileVolatile` -/

namespace FileVolatile

open FileStore

variable {store : FileStore Body} {blocks : List (Block Body)}

/-- Writing the plan of an operation that keeps the blocks `kept`. -/
theorem writePlan_performed {kept : List (Block Body)} {removed : List HeaderHash}
    (hsettled : Settled (lookupIn blocks) store.files) (hdistinct : (blocks.map blockHash).Nodup)
    (hkeeps : Keeps blocks kept removed) :
    Yields Performed (writeDeleteWal removed) store
      (fun _ next => SameMemory store next ∧ Deleting removed removed (lookupIn kept) next.files)
      (OneOf blocks kept) := by
  have hwritten := writeDeleteWal_performed hsettled removed
  rw [hkeeps.without_eq hdistinct] at hwritten
  exact hwritten

/-- The part of an operation that writes the plan and deletes what it names, then the rest. -/
theorem writeAndDrop_seq {Value : Type} {kept : List (Block Body)} {removed : List HeaderHash}
    {write : Disk Body Unit}
    (hwrite : Yields Performed write store
      (fun _ next => SameMemory store next ∧ Deleting removed removed (lookupIn kept) next.files)
      (OneOf blocks kept)) {rest : Disk Body Value}
    {promise : Promise (FileStore Body) StorageError Value}
    (hrest : ∀ dropped, Forgot removed store dropped →
      Deleting removed [] (lookupIn kept) dropped.files → Meets Performed rest dropped promise)
    (hstopped : ∀ next, OneOf blocks kept next → promise.stopped next) :
    Meets Performed (write >>= fun _ => .forEach dropBlock removed >>= fun _ => rest) store
      promise := by
  refine hwrite.seq (fun _ planned hplanned => ?_) hstopped
  refine (dropBlocks_performed hplanned.2).seq (fun _ dropped hdropped => ?_)
    fun _ hdeleted => hstopped _ (.inr hdeleted)
  exact hrest dropped (Forgot.trans (.of_sameMemory hplanned.1) hdropped.1) hdropped.2

theorem pruneUpTo_refines (point : Point) :
    Refines (pruneUpTo point) fun blocks : List (Block Body) =>
      ((InMemoryVolatile.mk blocks).pruneUpTo point).map fun next => ((), next.blocks) := by
  intro store blocks hsync
  cases point with
  | origin => exact .pure ⟨blocks, rfl, hsync⟩
  | blockPoint slot hash =>
    refine hsync.seq_alike (markDirty_stays not_performed_fail) (fun dirty hdirty => ?_)
      fun _ => .inl
    refine .read_seq ?_
    rw [hdirty.holds.findIdx?]
    simp only [listAfter, InMemoryVolatile.pruneUpTo]
    cases blocks.findIdx? (hasHash hash) with
    | none => exact .throw ⟨rfl, hdirty⟩
    | some position =>
      have hdistinct := hdirty.holds.distinct
      have hkeeps := keeps_drop hdistinct (position + 1)
      rw [List.map_take, ← hdirty.holds.chain] at hkeeps
      have hcut : Settled (lookupIn blocks)
          { dirty with chain := dirty.chain.drop (position + 1) }.files := hdirty.settled
      refine .update_seq (writeAndDrop_seq (writePlan_performed hcut hdistinct hkeeps)
        (fun dropped hforgot hdeleting => ?_) fun _ hstopped => hstopped)
      have hholds := hdirty.holds.forget hkeeps (hforgot.1.trans (by rw [hdirty.holds.chain,
        List.map_drop])) hforgot.2
      exact (clear_performed hholds (clearDeleteWal_performed hdeleting) markClean_stays).mono
        (fun _ _ hnext => ⟨_, rfl, hnext⟩)
        fun _ hstopped => .inr hstopped

theorem rollbackTo_refines (point : Point) :
    Refines (rollbackTo point) fun blocks : List (Block Body) =>
      .ok ((), ((InMemoryVolatile.mk blocks).rollbackTo point).blocks) := by
  intro store blocks hsync
  have hdirtied : Stays Performed False Alike (.ignore markDirty : Disk Body Unit) :=
    .ignore (markDirty_stays fun _ => trivial)
  cases point with
  | origin =>
    refine hsync.seq_alike hdirtied (fun dirty hdirty => ?_) fun _ => .inl
    have hkeeps : Keeps blocks [] dirty.chain := by
      refine ⟨List.nil_sublist _, fun block hmem => iff_of_false List.not_mem_nil fun hnot => ?_⟩
      exact hnot (hdirty.holds.chain ▸ List.mem_map_of_mem hmem)
    have hwritten := (writePlan_performed hdirty.settled hdirty.holds.distinct
      hkeeps).ignore
    refine .read_seq (hwritten.seq (fun _ planned hplanned => ?_) fun _ hstopped => hstopped)
    refine (removeBlocks_performed hplanned.2).seq (fun _ removed hremoved => ?_)
      fun _ hstopped => .inr hstopped
    have hholds : Holds { removed with chain := [], index := ∅ } ([] : List (Block Body)) :=
      ⟨rfl, fun _ => rfl, List.nodup_nil⟩
    have hgone : Deleting dirty.chain [] (lookupIn ([] : List (Block Body)))
        { removed with chain := [], index := ∅ }.files := hremoved.2
    have hcleared := (clearDeleteWal_performed hgone).ignore
    exact .update_seq ((clear_performed hholds hcleared (.ignore markClean_stays)).mono
      (fun _ _ hnext => ⟨_, rfl, hnext⟩) fun _ hstopped => .inr hstopped)
  | blockPoint slot hash =>
    refine .read_seq ?_
    rw [hsync.holds.findIdx?]
    simp only [listAfter, InMemoryVolatile.rollbackTo]
    cases blocks.findIdx? (hasHash hash) with
    | none => exact .pure ⟨_, rfl, hsync⟩
    | some position =>
      refine hsync.seq_alike hdirtied (fun dirty hdirty => ?_) fun _ => .inl
      have hdistinct := hdirty.holds.distinct
      have hkeeps := keeps_take hdistinct (position + 1)
      rw [List.map_drop, ← hsync.holds.chain] at hkeeps
      have hcut : Settled (lookupIn blocks)
          { dirty with chain := dirty.chain.take (position + 1) }.files := hdirty.settled
      have hwritten := (writePlan_performed hcut hdistinct hkeeps).ignore
      refine .update_seq (writeAndDrop_seq hwritten
        (fun dropped hforgot hdeleting => ?_) fun _ hstopped => hstopped)
      have hholds := hdirty.holds.forget hkeeps (hforgot.1.trans (by rw [hdirty.holds.chain,
        List.map_take])) hforgot.2
      exact (clear_performed hholds
        ((clearDeleteWal_performed hdeleting).ignore)
        (.ignore markClean_stays)).mono (fun _ _ hnext => ⟨_, rfl, hnext⟩)
        fun _ hstopped => .inr hstopped

theorem not_decide_lt (slot other : SlotNo) : (!decide (slot < other)) = decide (slot ≥ other) := by
  rw [← decide_not]
  exact decide_eq_decide.mpr UInt64.not_lt

theorem expired_eq (hholds : store.Holds blocks) (slot : SlotNo) :
    expired store slot =
      (blocks.filter fun block => decide (block.header.slotNo < slot)).map blockHash := by
  rw [expired, hholds.chain, List.filter_map]
  refine congrArg _ (List.filter_congr fun block hmem => ?_)
  have hfound : store.index.lookup block.header.hash = some block := by
    rw [hholds.lookup, lookupIn_eq_some_iff hholds.distinct]
    exact ⟨hmem, rfl⟩
  simp [blockHash, hfound]

theorem garbageCollect_refines (slot : SlotNo) :
    Refines (garbageCollect slot) fun blocks : List (Block Body) =>
      .ok (((InMemoryVolatile.mk blocks).garbageCollect slot).1,
        ((InMemoryVolatile.mk blocks).garbageCollect slot).2.blocks) := by
  intro store blocks hsync
  have hkeeps := keeps_filter hsync.holds.distinct fun block => decide (block.header.slotNo < slot)
  have hcount := length_filter_eq_sub blocks fun block => decide (block.header.slotNo < slot)
  simp only [InMemoryVolatile.garbageCollect, ← not_decide_lt]
  refine .read_seq ?_
  rw [expired_eq hsync.holds, List.length_map, hcount]
  by_cases hnone : ((blocks.filter fun block =>
      decide (block.header.slotNo < slot)).map blockHash).isEmpty = true
  · -- nothing is expired, so everything is kept
    rw [if_pos hnone]
    rw [List.isEmpty_iff, List.map_eq_nil_iff] at hnone
    rw [hnone, List.length_nil] at hcount
    have hall := hkeeps.sublist.eq_of_length (by have := hkeeps.sublist.length_le; omega)
    exact .pure ⟨_, by rw [← hcount], hall.symm ▸ hsync⟩
  · rw [if_neg hnone]
    refine hsync.seq_alike (.ignore (markDirty_stays fun _ => trivial))
      (fun dirty hdirty => ?_) fun _ => .inl
    have hwritten := (writePlan_performed hdirty.settled hdirty.holds.distinct
      hkeeps).ignore
    refine writeAndDrop_seq hwritten (fun dropped hforgot hdeleting => ?_)
      fun _ hstopped => hstopped
    have hholds := hdirty.holds.retained _ hforgot
    have hcleared := fun chain =>
      (@clearDeleteWal_performed _ { dropped with chain } _ _ hdeleting).ignore
    refine .update_seq ((hcleared _).seq (fun _ cleared hnext => ?_)
      fun _ hstopped => .inr hstopped)
    have hcleared : cleared.InSync _ := ⟨hholds.of_sameMemory hnext.1, hnext.2⟩
    exact hcleared.seq_alike (.ignore markClean_stays) (fun _ hnext => .pure ⟨_, rfl, hnext⟩)
      fun _ => .inr

end FileVolatile

/-! ## `FileImmutable` -/

namespace FileImmutable

open FileStore

theorem removeIfPresent_performed (name : FileName) (store : FileStore Body) :
    Yields Performed (removeIfPresent name) store
      (fun _ next => Changed name none store next) fun _ => True := by
  refine (fileExists_performed name).seq (fun present asked hasked => ?_) fun _ _ => trivial
  obtain ⟨rfl, hpresent⟩ := hasked
  cases present with
  | true =>
    refine .call (fun value next hok => ?_) (fun error herror => ?_)
      (fun hfail => absurd hfail not_performed_fail) fun _ => trivial
    · rw [if_pos hpresent.symm] at hok
      cases hok
      exact ⟨⟨rfl, rfl⟩, AList.lookup_erase _ _, fun other _ hne => AList.lookup_erase_ne hne⟩
    · rw [if_pos hpresent.symm] at herror
      cases herror
  | false => exact .pure ⟨⟨rfl, rfl⟩, by simpa using hpresent.symm, fun _ _ _ => rfl⟩

variable {store : FileStore Body} {target : HeaderHash → Option (Block Body)}
  {allowed : Verdict → Prop}

/-- A directory from which both files of a hash are removed. -/
theorem Settled.removed {hash : HeaderHash} {middle next : FileStore Body}
    (hsettled : Settled target store.files) (hcbor : Changed (.cbor hash) none store middle)
    (hjson : Changed (.json hash) none middle next) :
    Settled (without [hash] target) next.files where
  wellNamed := (hsettled.wellNamed.of_removed hcbor).of_removed hjson
  planned := by
    rw [planned, hjson.elsewhere .wal rfl FileName.noConfusion,
      hcbor.elsewhere .wal rfl FileName.noConfusion]
    exact hsettled.planned
  blocks other := by
    rw [without, ← hsettled.blocks, blockOf, blockOf, readable_of_changed hjson rfl,
      readable_of_changed hjson rfl, readable_of_changed hcbor rfl, readable_of_changed hcbor rfl]
    by_cases hsame : other = hash
    · simp [hsame]
    · simp [hsame]

theorem trimBlock_performed (hash : HeaderHash) (hsettled : Settled target store.files) :
    Yields Performed (trimBlock hash) store
      (fun _ next => Settled (without [hash] target) next.files) fun _ => True := by
  refine (removeIfPresent_performed _ store).seq (fun _ middle hcbor => ?_)
    fun _ _ => trivial
  refine (removeIfPresent_performed _ middle).seq (fun _ next hjson => ?_)
    fun _ _ => trivial
  have hremoved := Settled.removed hsettled hcbor hjson
  exact .update hremoved

theorem trimBlock_forgets (hash : HeaderHash) (store : FileStore Body) :
    Meets allowed (trimBlock hash) store
      { returned := fun _ => Forgot [hash] store, threw := fun _ => SameMemory store
        stopped := fun _ => True } := by
  refine (removeIfPresent_keepsMemory _).seq_meets (fun _ next hnext => ?_) (fun _ _ _ hsame => hsame)
    fun _ _ => trivial
  refine (removeIfPresent_keepsMemory _).seq_meets (fun _ last hlast => ?_)
    (fun _ other _ hsame => (IsTrans.trans _ _ _ hnext hsame : SameMemory store other))
    fun _ _ => trivial
  exact .update (Forgot.trans (.of_sameMemory (IsTrans.trans _ _ _ hnext hlast)) (.erase last hash))

/-- A loop that fails has forgotten the blocks before the one it failed at. -/
theorem trimBlocks_forget (removed : List HeaderHash) (store : FileStore Body) :
    Meets allowed (.forEach trimBlock removed) store
      { returned := fun _ => Forgot removed store, threw := fun _ next => ∃ done, Forgot done store next
        stopped := fun _ => True } := by
  refine .forEach (fun rest current => ∃ done, removed = done ++ rest ∧ Forgot done store current)
    ?_ ?_ ⟨[], rfl, .of_sameMemory ⟨rfl, rfl⟩⟩
  · rintro hash rest current ⟨done, rfl, hforgot⟩
    refine (trimBlock_forgets hash current).mono (fun _ next hnext => ?_) (fun _ next hsame => ?_)
      fun _ _ => trivial
    · exact ⟨done ++ [hash], by simp, hforgot.trans hnext⟩
    · exact ⟨_, hforgot.trans (.of_sameMemory hsame)⟩
  · rintro next ⟨done, rfl, hforgot⟩
    simpa using hforgot

theorem trimBlocks_performed (hsettled : Settled target store.files) (removed : List HeaderHash) :
    Yields Performed (.forEach trimBlock removed) store
      (fun _ next => Forgot removed store next ∧ Settled (without removed target) next.files)
      fun _ => True := by
  refine .and (.forEach (fun rest current => ∃ done, removed = done ++ rest ∧
    Settled (without done target) current.files) ?_ ?_ ⟨[], rfl, by exact hsettled⟩)
    (trimBlocks_forget removed store)
  · rintro hash rest current ⟨done, rfl, hcurrent⟩
    refine (trimBlock_performed hash hcurrent).mono (fun _ next hnext => ?_) fun _ _ => trivial
    have hjoin : without [hash] (without done target) = without (done ++ [hash]) target := by
      funext other
      by_cases hsame : other = hash
      · simp [without, hsame]
      · simp [without, hsame]
    exact ⟨done ++ [hash], by simp, hjoin ▸ hnext⟩
  · rintro next ⟨done, rfl, hcurrent⟩
    simpa using hcurrent

theorem selected_eq {blocks : List (Block Body)} (hholds : store.Holds blocks)
    (test : SlotNo → Bool) :
    selected store test store.chain =
      some ((blocks.filter fun block => test block.header.slotNo).map blockHash) := by
  have hpart : ∀ part : List (Block Body), (∀ block ∈ part, block ∈ blocks) →
      selected store test (part.map blockHash) =
        some ((part.filter fun block => test block.header.slotNo).map blockHash) := by
    intro part
    induction part with
    | nil => intro _; rfl
    | cons block rest ih =>
      intro hmem
      have hslot : slotOf store (blockHash block) = some block.header.slotNo := by
        have hfound : lookupIn blocks (blockHash block) = some block :=
          (lookupIn_eq_some_iff hholds.distinct).mpr ⟨hmem block List.mem_cons_self, rfl⟩
        rw [slotOf, hholds.lookup, hfound]
        rfl
      rw [List.map_cons, selected, hslot, ih fun other hother =>
        hmem other (List.mem_cons_of_mem _ hother)]
      by_cases htest : test block.header.slotNo = true
      · simp [htest]
      · simp [htest]
  rw [hholds.chain]
  exact hpart blocks fun _ hmem => hmem

/-- **Trimming.**  The blocks whose slot passes the test go, and are counted. -/
theorem trim_performs (test : SlotNo → Bool) :
    Performs (trim test) fun blocks : List (Block Body) =>
      .ok (blocks.length - (blocks.filter fun block => !test block.header.slotNo).length,
        blocks.filter fun block => !test block.header.slotNo) := by
  intro store blocks hsync
  refine hsync.seq_alike (markDirty_stays not_performed_fail) (fun dirty hdirty => ?_)
    fun _ _ => trivial
  refine .read_seq ?_
  have hkeeps := keeps_filter hdirty.holds.distinct fun block => test block.header.slotNo
  have hpanic : Yields Performed
      (.orPanic (selected dirty test dirty.chain) : Disk Body (List HeaderHash)) dirty
      (fun removed next => next = dirty ∧
        removed = (blocks.filter fun block => test block.header.slotNo).map blockHash)
      fun _ => True :=
    .orPanic (selected_eq hdirty.holds test) ⟨rfl, rfl⟩
  refine hpanic.seq (fun removed same hsame => ?_) fun _ _ => trivial
  obtain ⟨rfl, rfl⟩ := hsame
  refine (trimBlocks_performed hdirty.settled _).seq (fun _ trimmed htrimmed => ?_)
    fun _ _ => trivial
  obtain ⟨hforgot, hsettled⟩ := htrimmed
  rw [hkeeps.without_eq hdirty.holds.distinct] at hsettled
  refine .update_seq ?_
  have hkept : InSync _ _ := ⟨hdirty.holds.retained _ hforgot, hsettled⟩
  refine hkept.seq_alike markClean_stays (fun _ hnext => .pure ⟨_, ?_, hnext⟩) fun _ _ => trivial
  rw [List.length_map, length_filter_eq_sub]

theorem trimBeforeSlot_performs (slot : SlotNo) :
    Performs (trimBeforeSlot slot) fun blocks : List (Block Body) =>
      .ok (((InMemoryImmutable.mk blocks).trimBeforeSlot slot).1,
        ((InMemoryImmutable.mk blocks).trimBeforeSlot slot).2.blocks) := by
  have htrim := @trim_performs Body fun other => decide (other < slot)
  simp only [FileVolatile.not_decide_lt] at htrim
  exact htrim

theorem trimAfterSlot_performs (slot : SlotNo) :
    Performs (trimAfterSlot slot) fun blocks : List (Block Body) =>
      .ok (((InMemoryImmutable.mk blocks).trimAfterSlot slot).1,
        ((InMemoryImmutable.mk blocks).trimAfterSlot slot).2.blocks) := by
  have htrim := @trim_performs Body fun other => decide (other > slot)
  simp only [FileVolatile.not_decide_lt] at htrim
  exact htrim

end FileImmutable

end Yggdrasil.Storage
