import Yggdrasil.Library.Interruptible
import Yggdrasil.Library.KeyedMap
import Yggdrasil.Storage.Stores

/-!
# The file-backed block stores

`FileVolatile` and `FileImmutable` of `crates/storage/src/{file_volatile,file_immutable}.rs`.  Both
keep a data directory with one file for each block, the hashes in insertion order (`chain`) and the
blocks by hash (`index`).  An operation is a program over the two, and every call to the file system
in it may be refused, and the process may stop before it.

A file is modelled by what reading it gives: a block, a delete plan, or nothing that decodes.  The
order in which a directory is listed and a hash map is walked is not fixed by the code; it is a
parameter of `open` (`Orders`).  The number of skipped files, the log lines, the read-only opening
and `compact` are left out, as are hash entries of a delete plan that are not hexadecimal.
-/

namespace Yggdrasil.Storage

open Ledger Library

/-! ## The data directory -/

/-- The files the stores use.  Blocks are `<hash>.cbor`, or `<hash>.json` if an older version wrote
them; `<hash>.tmp` and `wal.pending.tmp` are files on their way to their final name. -/
inductive FileName where
  | cbor (hash : HeaderHash)
  | json (hash : HeaderHash)
  | tmp (hash : HeaderHash)
  | dirtyFlag
  | wal
  | walTmp
deriving DecidableEq, Repr

/-- `Path::with_extension("tmp")`. -/
def FileName.withExtensionTmp : FileName → FileName
  | cbor hash | json hash | tmp hash => tmp hash
  | wal | walTmp => walTmp
  | dirtyFlag => dirtyFlag

/-- A name that ends in `.tmp`. -/
def FileName.isTmp : FileName → Bool
  | tmp _ | walTmp => true
  | _ => false

/-- What a file holds. -/
inductive FileContent (Body : Type) where
  | block (block : Block Body)
  | plan (hashes : List HeaderHash)
  | unreadable
deriving DecidableEq, Repr

/-- A data directory. -/
abbrev Directory (Body : Type) := KeyedMap FileName (FileContent Body)

/-- A store: its directory, and what it has in memory. -/
structure FileStore (Body : Type) where
  files : Directory Body
  chain : List HeaderHash
  index : KeyedMap HeaderHash (Block Body)

/-- A program over a store. -/
abbrev Disk (Body Value : Type) := Program (FileStore Body) StorageError Value

/-- The orders the code leaves open: of the two directory listings, and of the values of the map in
which the blocks are collected. -/
structure Orders where
  tmpListing : List FileName → List FileName
  blockListing : List FileName → List FileName
  values : List HeaderHash → List HeaderHash
  tmpListing_perm : ∀ names, (tmpListing names).Perm names
  blockListing_perm : ∀ names, (blockListing names).Perm names
  values_perm : ∀ hashes, (values hashes).Perm hashes

variable {Body : Type}

namespace FileStore

/-- An empty data directory, opened. -/
def empty : FileStore Body := { files := ∅, chain := [], index := ∅ }

variable (store : FileStore Body) (name : FileName)

/-- What is left of a store when its process ends. -/
def restart : FileStore Body := { files := store.files, chain := [], index := ∅ }

/-! ### Calls to the file system -/

/-- A call with no effect the model sees. -/
def plainCall : Disk Body Unit := .call .io fun store => .ok ((), store)

/-- `File::create`: an empty file. -/
def create : Disk Body Unit :=
  .call .io fun store => .ok ((), { store with files := store.files.insert name .unreadable })

/-- `write_all` to a file that was just created. -/
def writeAll (content : FileContent Body) : Disk Body Unit :=
  .call .io fun store => .ok ((), { store with files := store.files.insert name content })

def rename (source target : FileName) : Disk Body Unit :=
  .call .io fun store =>
    match store.files.lookup source with
    | some content =>
      .ok ((), { store with files := (store.files.erase source).insert target content })
    | none => .error .io

def removeFile : Disk Body Unit :=
  .call .io fun store =>
    if (store.files.lookup name).isSome then
      .ok ((), { store with files := store.files.erase name })
    else .error .io

/-- `Path::exists`, which is false if the file system does not answer. -/
def fileExists : Disk Body Bool := do
  let answer ← Program.attempt
    (.call .io fun store => .ok ((store.files.lookup name).isSome, store))
  match answer with
  | .ok found => pure found
  | .error _ => pure false

def readFile : Disk Body (FileContent Body) :=
  .call .io fun store =>
    match store.files.lookup name with
    | some content => .ok (content, store)
    | none => .error .io

def readDir (listing : List FileName → List FileName) : Disk Body (List FileName) :=
  .call .io fun store => .ok (listing store.files.keys, store)

/-- Open the directory and sync it. -/
def syncDir : Disk Body Unit := do
  plainCall
  plainCall

def markDirty : Disk Body Unit := do
  create .dirtyFlag
  plainCall
  syncDir

def markClean : Disk Body Unit := .ignore (removeFile .dirtyFlag)

/-- Write a temporary file, sync it, and give it its name. -/
def atomicWriteFile (path : FileName) (data : FileContent Body) : Disk Body Unit := do
  create path.withExtensionTmp
  writeAll path.withExtensionTmp data
  plainCall
  rename path.withExtensionTmp path
  syncDir

/-! ### Opening -/

/-- Remove what an interrupted write left behind. -/
def removeTmpFiles (orders : Orders) (hadDirty : Bool) : Disk Body Unit :=
  if hadDirty then do
    let entries ← Program.attempt (readDir orders.tmpListing)
    match entries with
    | .ok names => .forEach (fun name => .ignore (removeFile name)) (names.filter FileName.isTmp)
    | .error _ => pure ()
  else pure ()

/-- Enter a block read from a file.  One read from CBOR takes the place of one read from JSON. -/
def enterBlock (fromCbor : Bool) (found : KeyedMap HeaderHash (Block Body × Bool))
    (block : Block Body) : KeyedMap HeaderHash (Block Body × Bool) :=
  match found.lookup block.header.hash with
  | none => found.insert block.header.hash (block, fromCbor)
  | some (_, true) => found
  | some (_, false) =>
    if fromCbor then found.insert block.header.hash (block, true) else found

/-- What a directory entry adds to the blocks found so far.  The delete plan has the extension of
an old block file and is looked at as one. -/
def scanFile (found : KeyedMap HeaderHash (Block Body × Bool)) (name : FileName) :
    Disk Body (KeyedMap HeaderHash (Block Body × Bool)) :=
  match name with
  | .cbor _ => scanAs true
  | .json _ | .wal => scanAs false
  | .tmp _ | .walTmp | .dirtyFlag => pure found
where
  scanAs (fromCbor : Bool) : Disk Body (KeyedMap HeaderHash (Block Body × Bool)) := do
    let content ← Program.attempt (readFile name)
    match content with
    | .ok (.block block) => pure (enterBlock fromCbor found block)
    | _ => pure found

def scanFiles (found : KeyedMap HeaderHash (Block Body × Bool)) :
    List FileName → Disk Body (KeyedMap HeaderHash (Block Body × Bool))
  | [] => pure found
  | name :: rest => do
    let found ← scanFile found name
    scanFiles found rest

/-- The blocks of the map in the order it is walked, sorted by slot. -/
def sortedBlocks (orders : Orders) (found : KeyedMap HeaderHash (Block Body × Bool)) :
    List (Block Body) :=
  ((orders.values found.keys).filterMap fun hash => (found.lookup hash).map Prod.fst).mergeSort
    fun a b => decide (a.header.slotNo ≤ b.header.slotNo)

/-- Take a list of blocks into memory. -/
def load (blocks : List (Block Body)) (store : FileStore Body) : FileStore Body :=
  { store with
    chain := blocks.map fun block => block.header.hash
    index := KeyedMap.insertAll (blocks.map fun block => (block.header.hash, block)) ∅ }

def loadBlocks (orders : Orders) : Disk Body Unit := do
  let names ← readDir orders.blockListing
  let found ← scanFiles ∅ names
  .update (load (sortedBlocks orders found))

def clearDirty (hadDirty : Bool) : Disk Body Unit :=
  if hadDirty then .ignore (removeFile .dirtyFlag) else pure ()

/-! ### Reading -/

/-- The blocks a list of hashes stands for; hashes that are not in the index are passed over. -/
def indexed (hashes : List HeaderHash) : List (Block Body) := hashes.filterMap store.index.lookup

/-- The last block's point.  `none` is the panic of `self.index[hash]`. -/
def tip : Option Point :=
  match store.chain.getLast? with
  | none => some .origin
  | some hash => (store.index.lookup hash).map Block.point

/-- The block file of a hash, then the one an older version may have left. -/
def removeBlockFiles (hash : HeaderHash) : Disk Body Unit := do
  .ignore (removeFile (.cbor hash))
  .ignore (removeFile (.json hash))

/-- Write a new block and take it into memory. -/
def appendBlock (block : Block Body) : Disk Body Unit := do
  let store ← .read
  if (store.index.lookup block.header.hash).isSome then
    .throw (.duplicateBlock block.header.hash)
  else do
    markDirty
    atomicWriteFile (.cbor block.header.hash) (.block block)
    .update fun store =>
      { store with
        chain := store.chain ++ [block.header.hash]
        index := store.index.insert block.header.hash block }
    markClean

end FileStore

/-! ## `FileVolatile` -/

namespace FileVolatile

open FileStore

/-- Delete the block files a plan names. -/
def deletePlanned (content : Except StorageError (FileContent Body)) : Disk Body Unit :=
  match content with
  | .ok (.plan hashes) => .forEach removeBlockFiles hashes
  | _ => pure ()

/-- Finish the deletions of an operation that was interrupted. -/
def applyDeletePlan (pending : Bool) : Disk Body Unit :=
  if pending then do
    let content ← Program.attempt (readFile .wal)
    deletePlanned content
    .ignore (removeFile .wal)
    .ignore syncDir
  else pure ()

def openStore (orders : Orders) : Disk Body Unit := do
  plainCall
  let hadDirty ← fileExists .dirtyFlag
  removeTmpFiles orders hadDirty
  let pending ← fileExists .wal
  applyDeletePlan pending
  loadBlocks orders
  clearDirty hadDirty

def writeDeleteWal (hashes : List HeaderHash) : Disk Body Unit :=
  if hashes.isEmpty then pure () else atomicWriteFile .wal (.plan hashes)

def clearDeleteWal : Disk Body Unit := do
  .ignore (removeFile .wal)
  syncDir

def addBlock (block : Block Body) : Disk Body Unit := appendBlock block

variable (store : FileStore Body) (point : Point)

def getBlock (hash : HeaderHash) : Option (Block Body) := store.index.lookup hash

/-- The blocks up to and including `point`. -/
def prefixUpTo : Except StorageError (List (Block Body)) :=
  match point with
  | .origin => .ok []
  | .blockPoint _ hash =>
    match store.chain.findIdx? (· == hash) with
    | none => .error .pointNotFound
    | some position =>
      (store.chain.take (position + 1)).mapM fun hash =>
        match store.index.lookup hash with
        | some block => .ok block
        | none => .error .pointNotFound

/-- Delete a block's files and forget the block. -/
def dropBlock (hash : HeaderHash) : Disk Body Unit := do
  removeBlockFiles hash
  .update fun store => { store with index := store.index.erase hash }

/-- Drop the blocks up to and including `point`. -/
def pruneUpTo : Disk Body Unit :=
  match point with
  | .origin => pure ()
  | .blockPoint _ hash => do
    markDirty
    let store ← .read
    match store.chain.findIdx? (· == hash) with
    | none => .throw .pointNotFound
    | some position => do
      .update fun store => { store with chain := store.chain.drop (position + 1) }
      writeDeleteWal (store.chain.take (position + 1))
      .forEach dropBlock (store.chain.take (position + 1))
      clearDeleteWal
      markClean

/-- Drop the blocks after `point`; an unknown point changes nothing. -/
def rollbackTo : Disk Body Unit :=
  match point with
  | .origin => do
    .ignore markDirty
    let store ← .read
    .ignore (writeDeleteWal store.chain)
    .forEach removeBlockFiles store.chain
    .update fun store => { store with chain := [], index := ∅ }
    .ignore clearDeleteWal
    .ignore markClean
  | .blockPoint _ hash => do
    let store ← .read
    match store.chain.findIdx? (· == hash) with
    | none => pure ()
    | some position => do
      .ignore markDirty
      .update fun store => { store with chain := store.chain.take (position + 1) }
      .ignore (writeDeleteWal (store.chain.drop (position + 1)))
      .forEach dropBlock (store.chain.drop (position + 1))
      .ignore clearDeleteWal
      .ignore markClean

def suffixAfter : List (Block Body) :=
  match point with
  | .origin => store.indexed store.chain
  | .blockPoint _ hash =>
    match store.chain.findIdx? (· == hash) with
    | some position => store.indexed (store.chain.drop (position + 1))
    | none => []

/-- The blocks a garbage collection removes. -/
def expired (slot : SlotNo) : List HeaderHash :=
  store.chain.filter fun hash =>
    match store.index.lookup hash with
    | some block => decide (block.header.slotNo < slot)
    | none => false

/-- Drop the blocks before a slot and count them. -/
def garbageCollect (slot : SlotNo) : Disk Body Nat := do
  let store ← .read
  if (expired store slot).isEmpty then pure 0
  else do
    .ignore markDirty
    .ignore (writeDeleteWal (expired store slot))
    .forEach dropBlock (expired store slot)
    .update fun current =>
      { current with chain := current.chain.filter fun hash => !(expired store slot).contains hash }
    .ignore clearDeleteWal
    .ignore markClean
    pure (expired store slot).length

def blockCount : Nat := store.chain.length

end FileVolatile

/-! ## `FileImmutable` -/

namespace FileImmutable

open FileStore

def openStore (orders : Orders) : Disk Body Unit := do
  plainCall
  let hadDirty ← fileExists .dirtyFlag
  removeTmpFiles orders hadDirty
  loadBlocks orders
  clearDirty hadDirty

def appendBlock (block : Block Body) : Disk Body Unit := FileStore.appendBlock block

variable (store : FileStore Body) (hash : HeaderHash)

def getTip : Option Point := store.tip

def getBlock : Option (Block Body) := store.index.lookup hash

def containsBlock : Bool := (store.index.lookup hash).isSome

/-- The slot `self.index[hash].header.slot_no`, or a panic. -/
def slotOf : Option SlotNo := (store.index.lookup hash).map fun block => block.header.slotNo

/-- Index of the first block after `point`.  The outer `none` is a panic. -/
def resolveSuffixStart (point : Point) : Option (Except StorageError Nat) :=
  match point with
  | .origin => some (.ok 0)
  | .blockPoint slot hash =>
    match store.chain.head?, store.chain.getLast? with
    | some first, some last => do
      let firstSlot ← slotOf store first
      if slot < firstSlot then return .ok 0
      else match store.chain.findIdx? (· == hash) with
        | some position => return .ok (position + 1)
        | none => do
          let lastSlot ← slotOf store last
          if slot > lastSlot then return .ok store.chain.length
          else return .error .pointNotFound
    | _, _ => some (.ok 0)

def suffixAfter (point : Point) : Option (Except StorageError (List (Block Body))) :=
  (resolveSuffixStart store point).map fun start =>
    start.map fun position => store.indexed (store.chain.drop position)

/-- The blocks of `suffixAfter`, one at a time. -/
def iterAfter (point : Point) : Option (Except StorageError (List (Block Body))) :=
  (resolveSuffixStart store point).map fun start =>
    start.map fun position => store.indexed (store.chain.drop position)

def len : Nat := store.chain.length

def isEmpty : Bool := len store == 0

/-- The loop of the standard library's binary search: the last of `size` places from `base` on
whose key is not above the target.  A key that is `none` is a panic. -/
def searchLoop (key : Nat → Option SlotNo) (target : SlotNo) (base size : Nat) : Option Nat :=
  if hsize : size ≤ 1 then some base
  else do
    let middle := base + size / 2
    let found ← key middle
    searchLoop key target (if found > target then base else middle) (size - size / 2)
termination_by size
decreasing_by omega

/-- `binary_search_by_key(..).ok()` on `size` places. -/
def binarySearchByKey (key : Nat → Option SlotNo) (size : Nat) (target : SlotNo) :
    Option (Option Nat) :=
  if size = 0 then some none
  else do
    let base ← searchLoop key target 0 size
    let found ← key base
    if found = target then return some base else return none

def getBlockBySlot (slot : SlotNo) : Option (Option (Block Body)) := do
  let position ← binarySearchByKey (fun position => store.chain[position]?.bind (slotOf store))
    store.chain.length slot
  return position.bind fun position => store.chain[position]?.bind store.index.lookup

/-- The hashes whose slot passes a test; one that is not in the index is a panic. -/
def selected (store : FileStore Body) (test : SlotNo → Bool) :
    List HeaderHash → Option (List HeaderHash)
  | [] => some []
  | hash :: rest => do
    let slot ← slotOf store hash
    let others ← selected store test rest
    return if test slot then hash :: others else others

/-- Remove a file if it is there. -/
def removeIfPresent (name : FileName) : Disk Body Unit := do
  let present ← fileExists name
  if present then removeFile name else pure ()

/-- Delete a block's files, stopping at the first error, and forget the block. -/
def trimBlock : Disk Body Unit := do
  removeIfPresent (.cbor hash)
  removeIfPresent (.json hash)
  .update fun store => { store with index := store.index.erase hash }

/-- Remove the blocks whose slot passes a test and count them. -/
def trim (test : SlotNo → Bool) : Disk Body Nat := do
  markDirty
  let store ← .read
  let toRemove ← .orPanic (selected store test store.chain)
  .forEach trimBlock toRemove
  .update fun store => { store with chain := store.chain.filter fun hash => !toRemove.contains hash }
  markClean
  pure toRemove.length

def trimBeforeSlot (slot : SlotNo) : Disk Body Nat := trim fun other => decide (other < slot)

def trimAfterSlot (slot : SlotNo) : Disk Body Nat := trim fun other => decide (other > slot)

end FileImmutable

end Yggdrasil.Storage
