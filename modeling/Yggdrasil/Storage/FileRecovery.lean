import Yggdrasil.Storage.FileStore
import Yggdrasil.Storage.Recovery

/-!
# What a data directory stands for

A directory is abstracted to the blocks that survive in it: the block a hash's files hold, unless a
pending delete plan names the hash (`surviving`).  Temporary files and the dirty flag do not count.
Opening a store leaves the surviving blocks alone at each of its calls and ends with exactly them in
memory; an operation changes them at one call, the one that gives a file its final name.
-/

namespace Yggdrasil.Storage

open Ledger Library

variable {Body : Type}

/-! ## The abstraction -/

/-- Files whose content matters: blocks and the delete plan. -/
def FileName.counts : FileName → Bool
  | cbor _ | json _ | wal => true
  | tmp _ | walTmp | dirtyFlag => false

namespace FileStore

/-- The block in a file. -/
def readable (files : Directory Body) (name : FileName) : Option (Block Body) :=
  match files.lookup name with
  | some (.block block) => some block
  | _ => none

/-- The block the files of a hash hold. -/
def blockOf (files : Directory Body) (hash : HeaderHash) : Option (Block Body) :=
  (readable files (.cbor hash)).or (readable files (.json hash))

/-- The hashes the pending delete plan names. -/
def planned (files : Directory Body) : List HeaderHash :=
  match files.lookup .wal with
  | some (.plan hashes) => hashes
  | _ => []

/-- What is left of `before` when the hashes of `removed` are deleted. -/
def without (removed : List HeaderHash) (before : HeaderHash → Option (Block Body))
    (hash : HeaderHash) : Option (Block Body) :=
  if hash ∈ removed then none else before hash

/-- The blocks of a directory, those that a pending plan deletes left out. -/
def surviving (files : Directory Body) (hash : HeaderHash) : Option (Block Body) :=
  if hash ∈ planned files then none else blockOf files hash

/-- A block is stored under its own hash, and the delete plan's file holds no block. -/
structure WellNamed (files : Directory Body) : Prop where
  cbor : ∀ hash block, readable files (.cbor hash) = some block → block.header.hash = hash
  json : ∀ hash block, readable files (.json hash) = some block → block.header.hash = hash
  wal : readable files .wal = none

/-- The same files among those that count. -/
def SameFiles (files others : Directory Body) : Prop :=
  ∀ name, name.counts = true → others.lookup name = files.lookup name

/-- The same memory. -/
def SameMemory (store other : FileStore Body) : Prop :=
  other.chain = store.chain ∧ other.index = store.index

/-- The same memory, and the same files among those that count. -/
def Alike (store other : FileStore Body) : Prop :=
  SameMemory store other ∧ SameFiles store.files other.files

instance : Std.Refl (@SameMemory Body) := ⟨fun _ => ⟨rfl, rfl⟩⟩

instance : IsTrans (FileStore Body) SameMemory :=
  ⟨fun _ _ _ hfirst hsecond => ⟨hsecond.1.trans hfirst.1, hsecond.2.trans hfirst.2⟩⟩

instance : Std.Refl (@Alike Body) := ⟨fun _ => ⟨⟨rfl, rfl⟩, fun _ _ => rfl⟩⟩

instance : IsTrans (FileStore Body) Alike :=
  ⟨fun _ _ _ hfirst hsecond => ⟨IsTrans.trans _ _ _ hfirst.1 hsecond.1, fun name hcounts =>
    (hsecond.2 name hcounts).trans (hfirst.2 name hcounts)⟩⟩

section

variable {files others : Directory Body}

section

variable (hsame : SameFiles files others)
include hsame

theorem SameFiles.readable_eq {name : FileName} (hcounts : name.counts = true) :
    readable others name = readable files name := by
  rw [readable, readable, hsame name hcounts]

theorem SameFiles.blockOf_eq (hash : HeaderHash) : blockOf others hash = blockOf files hash := by
  rw [blockOf, blockOf, hsame.readable_eq rfl, hsame.readable_eq rfl]

theorem SameFiles.planned_eq : planned others = planned files := by
  rw [planned, planned, hsame .wal rfl]

theorem SameFiles.surviving_eq : surviving others = surviving files := by
  funext hash
  rw [surviving, surviving, hsame.planned_eq, hsame.blockOf_eq]

theorem SameFiles.wellNamed (hnamed : WellNamed files) : WellNamed others where
  cbor hash block := by
    rw [hsame.readable_eq rfl]
    exact hnamed.cbor hash block
  json hash block := by
    rw [hsame.readable_eq rfl]
    exact hnamed.json hash block
  wal := (hsame.readable_eq rfl).trans hnamed.wal

end

theorem hash_of_blockOf (hnamed : WellNamed files) {hash : HeaderHash} {block : Block Body}
    (hblock : blockOf files hash = some block) : block.header.hash = hash := by
  rcases Option.or_eq_some_iff.mp hblock with hcbor | ⟨_, hjson⟩
  · exact hnamed.cbor hash block hcbor
  · exact hnamed.json hash block hjson

end

/-! ## Programs that change nothing that counts -/

section

variable {allowed : Verdict → Prop} {mayThrow : Prop}

theorem alike_of_files {store : FileStore Body} {files : Directory Body}
    (hsame : SameFiles store.files files) : Alike store { store with files } :=
  ⟨⟨rfl, rfl⟩, hsame⟩

variable {name : FileName}

theorem sameFiles_insert (files : Directory Body) (content : FileContent Body)
    (hcounts : name.counts = false) : SameFiles files (files.insert name content) := by
  intro other hother
  refine AList.lookup_insert_ne fun hsame => ?_
  rw [hsame, hcounts] at hother
  cases hother

theorem sameFiles_erase (files : Directory Body) (hcounts : name.counts = false) :
    SameFiles files (files.erase name) := by
  intro other hother
  refine AList.lookup_erase_ne fun hsame => ?_
  rw [hsame, hcounts] at hother
  cases hother

theorem plainCall_stays (hfail : allowed .fail → mayThrow) :
    Stays allowed mayThrow Alike (plainCall : Disk Body Unit) :=
  .call (fun store _ _ hok => by cases hok; exact Std.Refl.refl store)
    (fun _ _ herror => by cases herror) hfail

theorem create_stays (hcounts : name.counts = false) (hfail : allowed .fail → mayThrow) :
    Stays allowed mayThrow Alike (create name : Disk Body Unit) :=
  .call (fun _ _ _ hok => by cases hok; exact alike_of_files (sameFiles_insert _ _ hcounts))
    (fun _ _ herror => by cases herror) hfail

theorem removeFile_stays (hcounts : name.counts = false) :
    Stays allowed True Alike (removeFile name : Disk Body Unit) := by
  refine .call (fun store _ _ hok => ?_) (fun _ _ _ => trivial) (fun _ => trivial)
  split at hok
  · cases hok
    exact alike_of_files (sameFiles_erase _ hcounts)
  · cases hok

theorem syncDir_stays (hfail : allowed .fail → mayThrow) :
    Stays allowed mayThrow Alike (syncDir : Disk Body Unit) :=
  .seq (plainCall_stays hfail) fun _ => plainCall_stays hfail

theorem markDirty_stays (hfail : allowed .fail → mayThrow) :
    Stays allowed mayThrow Alike (markDirty : Disk Body Unit) :=
  .seq (create_stays rfl hfail) fun _ => .seq (plainCall_stays hfail) fun _ => syncDir_stays hfail

theorem markClean_stays : Stays allowed mayThrow Alike (markClean : Disk Body Unit) :=
  .ignore (removeFile_stays rfl)

theorem readDir_stays (listing : List FileName → List FileName)
    (hfail : allowed .fail → mayThrow) :
    Stays allowed mayThrow Alike (readDir listing : Disk Body (List FileName)) :=
  .call (fun store _ _ hok => by cases hok; exact Std.Refl.refl store)
    (fun _ _ herror => by cases herror) hfail

theorem counts_eq_false_of_isTmp (htmp : name.isTmp = true) : name.counts = false := by
  cases name <;> first | rfl | cases htmp

end

/-! ## Calls that are not refused -/

/-- The machine may stop, but no call is refused. -/
def Performed (verdict : Verdict) : Prop := verdict ≠ .fail

theorem not_performed_fail : ¬ Performed .fail := fun hperformed => hperformed rfl

/-- One file that counts is changed. -/
structure Changed (name : FileName) (content : Option (FileContent Body))
    (store next : FileStore Body) : Prop where
  memory : SameMemory store next
  changed : next.files.lookup name = content
  elsewhere : ∀ other, other.counts = true → other ≠ name →
    next.files.lookup other = store.files.lookup other

variable {content : Option (FileContent Body)}

theorem Changed.of_alike {name : FileName} (hcounts : name.counts = true)
    {store middle next : FileStore Body} (hchanged : Changed name content store middle)
    (halike : Alike middle next) :
    Changed name content store next where
  memory := IsTrans.trans _ _ _ hchanged.memory halike.1
  changed := (halike.2 name hcounts).trans hchanged.changed
  elsewhere other hother hne := (halike.2 other hother).trans (hchanged.elsewhere other hother hne)

theorem Alike.changed {name : FileName} {store middle next : FileStore Body}
    (halike : Alike store middle) (hchanged : Changed name content middle next) :
    Changed name content store next where
  memory := IsTrans.trans _ _ _ halike.1 hchanged.memory
  changed := hchanged.changed
  elsewhere other hother hne := (hchanged.elsewhere other hother hne).trans (halike.2 other hother)

theorem removeFile_performed (name : FileName) (store : FileStore Body) :
    Yields Performed (.ignore (removeFile name)) store
      (fun _ next => Changed name none store next) fun next => next = store := by
  refine Meets.ignore (.call (fun value next hok => ?_) (fun error herror => ?_)
    (fun hfail => absurd hfail not_performed_fail) (fun _ => rfl))
  · split at hok
    · cases hok
      exact ⟨⟨rfl, rfl⟩, AList.lookup_erase _ _, fun other _ hne => AList.lookup_erase_ne hne⟩
    · cases hok
  · split at herror
    · cases herror
    · rename_i habsent
      exact ⟨⟨rfl, rfl⟩, by simpa using habsent, fun _ _ _ => rfl⟩

/-- **Renaming is the only step of an atomic write that counts.** -/
theorem atomicWriteFile_performed {path : FileName} (hcounts : path.counts = true)
    (htmp : path.withExtensionTmp.counts = false) (data : FileContent Body)
    (store : FileStore Body) :
    Yields Performed (atomicWriteFile path data) store
      (fun _ next => Changed path (some data) store next)
      fun next => Alike store next ∨ Changed path (some data) store next := by
  have hne : ∀ other : FileName, other.counts = true → other ≠ path.withExtensionTmp := by
    intro other hother hsame
    rw [hsame, htmp] at hother
    cases hother
  refine (create_stays htmp not_performed_fail).seq_quiet (fun _ created hcreated => ?_)
    (fun _ => .inl)
  have hwrite : Yields Performed (writeAll path.withExtensionTmp data) created
      (fun _ next => Alike created next ∧ next.files.lookup path.withExtensionTmp = some data)
      fun next => next = created :=
    .call_ok rfl ⟨alike_of_files (sameFiles_insert _ _ htmp), AList.lookup_insert _⟩
      not_performed_fail fun _ => rfl
  refine hwrite.seq (fun _ written hwritten => ?_) (fun _ hstopped => .inl (hstopped ▸ hcreated))
  have halike : Alike store written := IsTrans.trans _ _ _ hcreated hwritten.1
  have hsync : Yields Performed plainCall written
      (fun _ next => next = written) fun next => next = written :=
    .call_ok rfl rfl not_performed_fail fun _ => rfl
  refine hsync.seq (fun _ synced hsynced => ?_) (fun _ hstopped => .inl (hstopped ▸ halike))
  subst hsynced
  have hrename : Yields Performed (rename path.withExtensionTmp path) synced
      (fun _ next => Changed path (some data) synced next) fun next => next = synced := by
    refine .call (fun value next hok => ?_) (fun error herror => ?_) not_performed_fail fun _ => rfl
    · rw [hwritten.2] at hok
      cases hok
      refine ⟨⟨rfl, rfl⟩, AList.lookup_insert _, fun other hother hother' => ?_⟩
      exact (AList.lookup_insert_ne hother').trans (AList.lookup_erase_ne (hne other hother))
    · rw [hwritten.2] at herror
      cases herror
  refine hrename.seq (fun _ renamed hrenamed => ?_) (fun _ hstopped => .inl (hstopped ▸ halike))
  have hchanged : Changed path (some data) store renamed := halike.changed hrenamed
  exact (syncDir_stays not_performed_fail renamed).mono
    (fun _ _ hafter => hchanged.of_alike hcounts hafter) (fun _ _ => And.left)
    (fun _ hafter => .inr (hchanged.of_alike hcounts hafter))

/-! ## Deleting what a plan names -/

/-- A directory with no pending plan, which holds `target`. -/
structure Settled (target : HeaderHash → Option (Block Body)) (files : Directory Body) : Prop where
  wellNamed : WellNamed files
  planned : planned files = []
  blocks : ∀ hash, blockOf files hash = target hash

/-- A directory in which `target` survives. -/
structure Survives (target : HeaderHash → Option (Block Body)) (files : Directory Body) : Prop where
  wellNamed : WellNamed files
  surviving : surviving files = target

/-- A directory on its way to `target`, with the hashes of `plan` to delete and those of `rest`
perhaps not deleted yet. -/
structure Deleting (plan rest : List HeaderHash) (target : HeaderHash → Option (Block Body))
    (files : Directory Body) : Prop where
  wellNamed : WellNamed files
  planned : planned files = plan
  kept : ∀ hash, hash ∉ plan → blockOf files hash = target hash
  gone : ∀ hash ∈ plan, target hash = none
  deleted : ∀ hash ∈ plan, hash ∉ rest → blockOf files hash = none

section

variable {target : HeaderHash → Option (Block Body)} {files : Directory Body}

theorem Settled.survives (hsettled : Settled target files) : Survives target files where
  wellNamed := hsettled.wellNamed
  surviving := by
    funext hash
    rw [FileStore.surviving, hsettled.planned, if_neg List.not_mem_nil, hsettled.blocks]

theorem Settled.of_sameFiles {others : Directory Body} (hsettled : Settled target files)
    (hsame : SameFiles files others) : Settled target others where
  wellNamed := hsame.wellNamed hsettled.wellNamed
  planned := hsame.planned_eq.trans hsettled.planned
  blocks hash := (hsame.blockOf_eq hash).trans (hsettled.blocks hash)

theorem Survives.of_sameFiles {others : Directory Body} (hsurvives : Survives target files)
    (hsame : SameFiles files others) : Survives target others where
  wellNamed := hsame.wellNamed hsurvives.wellNamed
  surviving := hsame.surviving_eq.trans hsurvives.surviving

theorem Survives.settled (hsurvives : Survives target files) (hplanned : planned files = []) :
    Settled target files where
  wellNamed := hsurvives.wellNamed
  planned := hplanned
  blocks hash := by
    rw [← hsurvives.surviving, FileStore.surviving, hplanned, if_neg List.not_mem_nil]

theorem Survives.deleting (hsurvives : Survives target files) :
    Deleting (planned files) (planned files) target files where
  wellNamed := hsurvives.wellNamed
  planned := rfl
  kept hash hplan := by rw [← hsurvives.surviving, FileStore.surviving, if_neg hplan]
  gone hash hplan := by rw [← hsurvives.surviving, FileStore.surviving, if_pos hplan]
  deleted hash hplan hrest := absurd hplan hrest

variable {plan rest : List HeaderHash} {store next : FileStore Body}

theorem Deleting.survives (hdeleting : Deleting plan rest target files) :
    Survives target files where
  wellNamed := hdeleting.wellNamed
  surviving := by
    funext hash
    rw [surviving, hdeleting.planned]
    by_cases hplan : hash ∈ plan
    · rw [if_pos hplan, hdeleting.gone hash hplan]
    · rw [if_neg hplan, hdeleting.kept hash hplan]

variable {name : FileName}

theorem readable_of_changed (hchanged : Changed name none store next) {other : FileName}
    (hother : other.counts = true) :
    readable next.files other = if other = name then none else readable store.files other := by
  by_cases hsame : other = name
  · rw [if_pos hsame, hsame, readable, hchanged.changed]
  · rw [if_neg hsame, readable, readable, hchanged.elsewhere other hother hsame]

theorem WellNamed.of_removed (hchanged : Changed name none store next)
    (hnamed : WellNamed store.files) :
    WellNamed next.files := by
  have hsome : ∀ {other : FileName} {block : Block Body}, other.counts = true →
      readable next.files other = some block → readable store.files other = some block := by
    intro other block hother hblock
    rw [readable_of_changed hchanged hother] at hblock
    split at hblock
    · cases hblock
    · exact hblock
  refine ⟨fun hash block hblock => hnamed.cbor hash block (hsome rfl hblock),
    fun hash block hblock => hnamed.json hash block (hsome rfl hblock), ?_⟩
  rw [readable_of_changed hchanged rfl, hnamed.wal, ite_self]

/-- Deleting a file of a planned hash goes on with the deletion. -/
theorem Deleting.of_removed {hash : HeaderHash} (hplan : hash ∈ plan)
    (hname : name = .cbor hash ∨ name = .json hash) (hchanged : Changed name none store next)
    (hdeleting : Deleting plan rest target store.files) :
    Deleting plan rest target next.files := by
  have hwal := hchanged.elsewhere .wal rfl (by rcases hname with rfl | rfl <;> exact
    FileName.noConfusion)
  have hother : ∀ other, other ≠ hash → blockOf next.files other = blockOf store.files other := by
    intro other hne
    have hcbor : FileName.cbor other ≠ name := by rcases hname with rfl | rfl <;> simp [hne]
    have hjson : FileName.json other ≠ name := by rcases hname with rfl | rfl <;> simp [hne]
    rw [blockOf, blockOf, readable_of_changed hchanged rfl, readable_of_changed hchanged rfl,
      if_neg hcbor, if_neg hjson]
  refine ⟨hdeleting.wellNamed.of_removed hchanged, ?_, ?_, hdeleting.gone, ?_⟩
  · rw [FileStore.planned, hwal]
    exact hdeleting.planned
  · intro other hnot
    rw [hother other fun hsame => hnot (hsame ▸ hplan)]
    exact hdeleting.kept other hnot
  · intro other hmem hrest
    have hnone := hdeleting.deleted other hmem hrest
    rw [blockOf, Option.or_eq_none_iff] at hnone
    rw [blockOf, readable_of_changed hchanged rfl, readable_of_changed hchanged rfl, hnone.1,
      hnone.2, ite_self, ite_self]
    rfl

theorem removeBlockFiles_performed {hash : HeaderHash} (hplan : hash ∈ plan)
    (hdeleting : Deleting plan (hash :: rest) target store.files) :
    Yields Performed (removeBlockFiles hash) store
      (fun _ next => SameMemory store next ∧ Deleting plan rest target next.files)
      fun next => Survives target next.files := by
  refine (removeFile_performed (.cbor hash) store).seq (fun _ middle hcbor => ?_)
    (fun _ hstopped => hstopped ▸ hdeleting.survives)
  have hmiddle := hdeleting.of_removed hplan (.inl rfl) hcbor
  refine (removeFile_performed (.json hash) middle).mono (fun _ next hjson => ?_)
    (fun _ hstopped => hstopped ▸ hmiddle.survives)
  have hnext := hmiddle.of_removed hplan (.inr rfl) hjson
  refine ⟨IsTrans.trans _ _ _ hcbor.memory hjson.memory, { hnext with deleted := ?_ }⟩
  intro other hmem hrest
  by_cases hsame : other = hash
  · subst hsame
    rw [blockOf, readable_of_changed hjson rfl, readable_of_changed hjson rfl,
      readable_of_changed hcbor rfl]
    simp
  · exact hnext.deleted other hmem (by simp [hsame, hrest])

theorem removeBlocks_performed (hdeleting : Deleting plan plan target store.files) :
    Yields Performed (.forEach removeBlockFiles plan) store
      (fun _ next => SameMemory store next ∧ Deleting plan [] target next.files)
      fun next => Survives target next.files := by
  refine .forEach (fun rest current => (∀ hash ∈ rest, hash ∈ plan) ∧ SameMemory store current ∧
    Deleting plan rest target current.files) ?_ (fun _ hdone => hdone.2)
    ⟨fun _ hmem => hmem, ⟨rfl, rfl⟩, hdeleting⟩
  rintro hash rest current ⟨hmem, hmemory, hcurrent⟩
  refine (removeBlockFiles_performed (hmem hash List.mem_cons_self) hcurrent).mono
    (fun _ next hnext => ⟨fun other hother => hmem other (List.mem_cons_of_mem _ hother), ?_⟩)
    fun _ hstopped => hstopped
  exact ⟨IsTrans.trans _ _ _ hmemory hnext.1, hnext.2⟩

/-- Once everything is deleted, the plan can go. -/
theorem Deleting.settled (hdeleting : Deleting plan [] target store.files)
    (hchanged : Changed .wal none store next) :
    Settled target next.files where
  wellNamed := hdeleting.wellNamed.of_removed hchanged
  planned := by rw [FileStore.planned, hchanged.changed]
  blocks hash := by
    have hsame : blockOf next.files hash = blockOf store.files hash := by
      rw [blockOf, blockOf, readable_of_changed hchanged rfl, readable_of_changed hchanged rfl]
      simp
    rw [hsame]
    by_cases hplan : hash ∈ plan
    · rw [hdeleting.deleted hash hplan List.not_mem_nil, hdeleting.gone hash hplan]
    · exact hdeleting.kept hash hplan

end

end FileStore

end Yggdrasil.Storage
