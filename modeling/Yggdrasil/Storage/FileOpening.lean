import Yggdrasil.Storage.FileRecovery

/-!
# Opening a file store

`open` cleans temporary files away, finishes a pending delete plan, and reads the block files into
memory.  Whatever the directory lists its files in, what is read is the block of each hash, the one
in CBOR before the one in JSON (`scanFiles_performed`).  At every call on the way the same blocks
survive, so an `open` that is stopped can be repeated (`openStore_performed`).
-/

namespace Yggdrasil.Storage.FileStore

open Ledger Library

variable {Body : Type}

/-! ## Reading the directory -/

/-- The block in a file, if the file was looked at. -/
def seen (files : Directory Body) (names : List FileName) (name : FileName) : Option (Block Body) :=
  if name ∈ names then readable files name else none

/-- What the scan holds of a hash after looking at `names`. -/
def scanned (files : Directory Body) (names : List FileName) (hash : HeaderHash) :
    Option (Block Body × Bool) :=
  match seen files names (.cbor hash) with
  | some block => some (block, true)
  | none => (seen files names (.json hash)).map fun block => (block, false)

section

variable {store : FileStore Body}

theorem readFile_performed (name : FileName) :
    Yields Performed (Program.attempt (readFile name)) store
      (fun content next => next = store ∧
        ∀ found, content = .ok found ↔ store.files.lookup name = some found)
      fun next => next = store := by
  refine .attempt (.call (fun content next hok => ?_) (fun error herror => ?_)
    (fun hfail => absurd hfail not_performed_fail) fun _ => rfl)
  · split at hok
    · rename_i found hfound
      cases hok
      refine ⟨rfl, fun other => ?_⟩
      rw [hfound, Except.ok.injEq, Option.some.injEq]
    · cases hok
  · split at herror
    · cases herror
    · rename_i habsent
      exact ⟨rfl, fun other => by simp [habsent]⟩

theorem fileExists_performed (name : FileName) :
    Yields Performed (fileExists name) store
      (fun found next => next = store ∧ found = (store.files.lookup name).isSome)
      fun next => next = store := by
  have hanswer : Yields Performed (Program.attempt
      (.call .io fun store => .ok ((store.files.lookup name).isSome, store))) store
      (fun answer next => next = store ∧
        answer = (.ok (store.files.lookup name).isSome : Except StorageError Bool))
      fun next => next = store :=
    .attempt (.call_ok rfl ⟨rfl, rfl⟩ (fun hfail => absurd hfail not_performed_fail) fun _ => rfl)
  refine hanswer.seq (fun answer next hnext => ?_) (fun _ hnext => hnext)
  obtain ⟨rfl, rfl⟩ := hnext
  exact .pure ⟨rfl, rfl⟩

variable {hash : HeaderHash} (files : Directory Body) (names : List FileName)
  {target : HeaderHash → Option (Block Body)}

theorem seen_append (name other : FileName) :
    seen files (names ++ [name]) other =
      if other = name then readable files other else seen files names other := by
  by_cases hsame : other = name
  · simp [seen, hsame]
  · simp [seen, hsame]

/-- Looking at a file that holds no block of the hash changes nothing for the hash. -/
theorem scanned_append_ne {name : FileName} (hcbor : .cbor hash ≠ name) (hjson : .json hash ≠ name) :
    scanned files (names ++ [name]) hash = scanned files names hash := by
  rw [scanned, scanned, seen_append, seen_append, if_neg hcbor, if_neg hjson]

variable {block : Block Body}

theorem lookup_enterBlock_ne (fromCbor : Bool) (found : KeyedMap HeaderHash (Block Body × Bool))
    (hne : hash ≠ block.header.hash) :
    (enterBlock fromCbor found block).lookup hash = found.lookup hash := by
  unfold enterBlock
  split
  · exact AList.lookup_insert_ne hne
  · rfl
  · split
    · exact AList.lookup_insert_ne hne
    · rfl

/-- What is held of the entered block's hash: a block read from CBOR stays. -/
theorem lookup_enterBlock (fromCbor : Bool) (found : KeyedMap HeaderHash (Block Body × Bool))
    (block : Block Body) :
    (enterBlock fromCbor found block).lookup block.header.hash =
      match found.lookup block.header.hash with
      | some (held, true) => some (held, true)
      | some (held, false) => if fromCbor then some (block, true) else some (held, false)
      | none => some (block, fromCbor) := by
  unfold enterBlock
  cases hheld : found.lookup block.header.hash with
  | none => exact AList.lookup_insert _
  | some entry =>
    obtain ⟨held, _ | _⟩ := entry
    · cases fromCbor with
      | true => exact AList.lookup_insert _
      | false => exact hheld
    · exact hheld

theorem scanAs_performed (found : KeyedMap HeaderHash (Block Body × Bool)) (name : FileName)
    (fromCbor : Bool) :
    Yields Performed (scanFile.scanAs found name fromCbor) store
      (fun next after => after = store ∧
        next = match readable store.files name with
          | some block => enterBlock fromCbor found block
          | none => found)
      fun next => next = store := by
  refine (readFile_performed name).seq (fun content after hafter => ?_) (fun _ hstopped => hstopped)
  obtain ⟨rfl, hcontent⟩ := hafter
  cases content with
  | error reason =>
    have habsent : after.files.lookup name = none :=
      Option.eq_none_iff_forall_ne_some.mpr fun other hsome => nomatch (hcontent other).mpr hsome
    refine .pure ⟨rfl, ?_⟩
    rw [readable, habsent]
  | ok content =>
    have hlookup : after.files.lookup name = some content := (hcontent content).mp rfl
    cases content with
    | block block =>
      refine .pure ⟨rfl, ?_⟩
      rw [readable, hlookup]
    | plan hashes | unreadable =>
      refine .pure ⟨rfl, ?_⟩
      rw [readable, hlookup]

theorem scanned_append_unreadable {name : FileName} (hnone : readable files name = none)
    (hash : HeaderHash) :
    scanned files (names ++ [name]) hash = scanned files names hash := by
  have hseen : ∀ other, seen files (names ++ [name]) other = seen files names other := by
    intro other
    rw [seen_append]
    by_cases hsame : other = name
    · rw [if_pos hsame, hsame, seen, hnone, ite_self]
    · rw [if_neg hsame]
  rw [scanned, scanned, hseen, hseen]

theorem scanned_append_cbor (hblock : readable files (.cbor hash) = some block) :
    scanned files (names ++ [.cbor hash]) hash = some (block, true) := by
  rw [scanned, seen_append, if_pos rfl, hblock]

theorem scanned_append_json (hblock : readable files (.json hash) = some block) :
    scanned files (names ++ [.json hash]) hash =
      match seen files names (.cbor hash) with
      | some held => some (held, true)
      | none => some (block, false) := by
  rw [scanned, seen_append, seen_append, if_pos rfl, hblock]
  rfl

variable {found : KeyedMap HeaderHash (Block Body × Bool)}

theorem scanFile_performed (hnamed : WellNamed store.files) {names : List FileName}
    (hfound : ∀ hash, found.lookup hash = scanned store.files names hash) (name : FileName) :
    Yields Performed (scanFile found name) store
      (fun found next => next = store ∧
        ∀ hash, found.lookup hash = scanned store.files (names ++ [name]) hash)
      fun next => next = store := by
  have hskipped : ∀ name, (∀ hash : HeaderHash, FileName.cbor hash ≠ name) →
      (∀ hash : HeaderHash, FileName.json hash ≠ name) →
      ∀ hash, found.lookup hash = scanned store.files (names ++ [name]) hash := fun name hcbor hjson
    hash => (hfound hash).trans (scanned_append_ne _ _ (hcbor hash) (hjson hash)).symm
  -- a block file: the scan of its own hash is updated, that of the others stays
  have hentered : ∀ (fromCbor : Bool) (hash : HeaderHash) (name : FileName),
      (∀ other, other ≠ hash → FileName.cbor other ≠ name ∧ FileName.json other ≠ name) →
      (∀ block, readable store.files name = some block → block.header.hash = hash ∧
        (enterBlock fromCbor found block).lookup hash =
          scanned store.files (names ++ [name]) hash) →
      Yields Performed (scanFile.scanAs found name fromCbor) store
        (fun found next => next = store ∧
          ∀ hash, found.lookup hash = scanned store.files (names ++ [name]) hash)
        fun next => next = store := by
    intro fromCbor hash name hothers hown
    refine (scanAs_performed found name fromCbor).mono (fun next after hafter => ?_)
      (fun _ hstopped => hstopped)
    obtain ⟨rfl, rfl⟩ := hafter
    refine ⟨rfl, fun other => ?_⟩
    cases hblock : readable after.files name with
    | none => exact (hfound other).trans (scanned_append_unreadable _ _ hblock other).symm
    | some block =>
      obtain ⟨hhash, hlookup⟩ := hown block hblock
      by_cases hsame : other = hash
      · rw [hsame]
        exact hlookup
      · refine (lookup_enterBlock_ne fromCbor found (hhash ▸ hsame)).trans ?_
        exact (hfound other).trans
          (scanned_append_ne _ _ (hothers other hsame).1 (hothers other hsame).2).symm
  cases name with
  | cbor hash =>
    refine hentered true hash _ (fun other hne => ⟨by simp [hne], FileName.noConfusion⟩) ?_
    intro block hblock
    have hhash := hnamed.cbor hash block hblock
    refine ⟨hhash, ?_⟩
    rw [scanned_append_cbor _ _ hblock, ← hhash, lookup_enterBlock, hfound, hhash, scanned]
    -- a block held from CBOR is the one in this file
    cases hseen : seen store.files names (.cbor hash) with
    | none => cases seen store.files names (.json hash) <;> rfl
    | some held =>
      rw [seen] at hseen
      split at hseen
      · rw [hblock] at hseen
        cases hseen
        rfl
      · cases hseen
  | json hash =>
    refine hentered false hash _ (fun other hne => ⟨FileName.noConfusion, by simp [hne]⟩) ?_
    intro block hblock
    have hhash := hnamed.json hash block hblock
    refine ⟨hhash, ?_⟩
    rw [scanned_append_json _ _ hblock, ← hhash, lookup_enterBlock, hfound, hhash, scanned]
    cases hcbor : seen store.files names (.cbor hash) with
    | some held => rfl
    | none =>
      cases hseen : seen store.files names (.json hash) with
      | none => rfl
      | some held =>
        rw [seen] at hseen
        split at hseen
        · rw [hblock] at hseen
          cases hseen
          rfl
        · cases hseen
  | wal =>
    refine (scanAs_performed found .wal false).mono (fun next after hafter => ?_)
      (fun _ hstopped => hstopped)
    obtain ⟨rfl, hnext⟩ := hafter
    rw [hnamed.wal] at hnext
    subst hnext
    exact ⟨rfl, hskipped _ (fun _ => FileName.noConfusion) fun _ => FileName.noConfusion⟩
  | tmp hash =>
    exact .pure ⟨rfl, hskipped _ (fun _ => FileName.noConfusion) fun _ => FileName.noConfusion⟩
  | walTmp | dirtyFlag =>
    exact .pure ⟨rfl, hskipped _ (fun _ => FileName.noConfusion) fun _ => FileName.noConfusion⟩

theorem scanFiles_performed (hnamed : WellNamed store.files) {before : List FileName}
    (hfound : ∀ hash, found.lookup hash = scanned store.files before hash) (names : List FileName) :
    Yields Performed (scanFiles found names) store
      (fun found next => next = store ∧
        ∀ hash, found.lookup hash = scanned store.files (before ++ names) hash)
      fun next => next = store := by
  induction names generalizing before found with
  | nil => exact .pure ⟨rfl, by simpa using hfound⟩
  | cons name rest ih =>
    refine (scanFile_performed hnamed hfound name).seq (fun next after hafter => ?_)
      (fun _ hstopped => hstopped)
    obtain ⟨rfl, hnext⟩ := hafter
    rw [List.append_cons]
    exact ih hnext

/-- When every file was looked at, the scan holds the directory's blocks. -/
theorem scanned_all {files : Directory Body} {names : List FileName}
    (hall : ∀ name, name ∈ names ↔ name ∈ files.keys) (hash : HeaderHash) :
    (scanned files names hash).map Prod.fst = blockOf files hash := by
  have hseen : ∀ name, seen files names name = readable files name := by
    intro name
    by_cases hmem : name ∈ names
    · rw [seen, if_pos hmem]
    · have habsent : files.lookup name = none := by
        rw [AList.lookup_eq_none]
        exact fun hkey => hmem ((hall name).mpr hkey)
      rw [seen, if_neg hmem, readable, habsent]
  rw [scanned, hseen, hseen, blockOf]
  cases readable files (.cbor hash) with
  | some block => rfl
  | none => simp [Option.map_map, Function.comp_def]

/-! ## The parts of `open` -/

variable {allowed : Verdict → Prop}

theorem removeTmpFiles_stays {mayThrow : Prop} (orders : Orders) (hadDirty : Bool) :
    Stays allowed mayThrow Alike (removeTmpFiles orders hadDirty : Disk Body Unit) := by
  cases hadDirty with
  | false => exact .pure ()
  | true =>
    refine .seq (.attempt (readDir_stays _ fun _ => trivial)) fun entries => ?_
    cases entries with
    | error reason => exact .pure ()
    | ok names =>
      refine .forEach fun name hname => .ignore (removeFile_stays ?_)
      exact counts_eq_false_of_isTmp (List.mem_filter.mp hname).2

theorem clearDirty_stays {mayThrow : Prop} (hadDirty : Bool) :
    Stays allowed mayThrow Alike (clearDirty hadDirty : Disk Body Unit) := by
  cases hadDirty with
  | false => exact .pure ()
  | true => exact .ignore (removeFile_stays rfl)

theorem loadBlocks_performed (hsettled : Settled target store.files) (orders : Orders) :
    Yields Performed (loadBlocks orders) store
      (fun _ next => ∃ found : KeyedMap HeaderHash (Block Body × Bool),
        (∀ hash, (found.lookup hash).map Prod.fst = target hash) ∧
          next = load (sortedBlocks orders found) store)
      fun next => next = store := by
  have hlisted : Yields Performed (readDir orders.blockListing) store
      (fun names next => next = store ∧ names.Perm store.files.keys) fun next => next = store :=
    .call_ok rfl ⟨rfl, orders.blockListing_perm _⟩ not_performed_fail fun _ => rfl
  refine hlisted.seq (fun names next hnext => ?_) fun _ hnext => hnext
  obtain ⟨rfl, hperm⟩ := hnext
  have hempty : ∀ hash, (∅ : KeyedMap HeaderHash (Block Body × Bool)).lookup hash =
      scanned next.files [] hash := fun hash => by simp [scanned, seen]
  refine (scanFiles_performed hsettled.wellNamed hempty names).seq (fun found after hafter => ?_)
    fun _ hstopped => hstopped
  obtain ⟨rfl, hfound⟩ := hafter
  refine .update ⟨found, fun hash => ?_, rfl⟩
  rw [hfound, List.nil_append, scanned_all (fun name => hperm.mem_iff), hsettled.blocks]

/-- What an opened store is: a directory without a plan, and its blocks in memory. -/
structure Opened (orders : Orders) (target : HeaderHash → Option (Block Body))
    (store : FileStore Body) : Prop where
  settled : Settled target store.files
  loaded : ∃ found : KeyedMap HeaderHash (Block Body × Bool),
    (∀ hash, (found.lookup hash).map Prod.fst = target hash) ∧
      SameMemory (load (sortedBlocks orders found) store) store

theorem Opened.of_alike {orders : Orders} {next : FileStore Body}
    (hopened : Opened orders target store) (halike : Alike store next) :
    Opened orders target next := by
  obtain ⟨found, hfound, hmemory⟩ := hopened.loaded
  exact ⟨hopened.settled.of_sameFiles halike.2, found, hfound,
    halike.1.1.trans hmemory.1, halike.1.2.trans hmemory.2⟩

theorem loadBlocks_clearDirty_performed (hsettled : Settled target store.files) (orders : Orders)
    (hadDirty : Bool) :
    Yields Performed (loadBlocks orders >>= fun _ => clearDirty hadDirty) store
      (fun _ next => Opened orders target next) fun next => Survives target next.files := by
  refine (loadBlocks_performed hsettled orders).seq (fun _ loaded hloaded => ?_)
    fun _ hstopped => hstopped ▸ hsettled.survives
  obtain ⟨found, hfound, rfl⟩ := hloaded
  have hopened : Opened orders target (load (sortedBlocks orders found) store) :=
    ⟨hsettled, found, hfound, rfl, rfl⟩
  exact (clearDirty_stays hadDirty _).mono (fun _ _ halike => hopened.of_alike halike)
    (fun _ _ => And.left) fun _ halike => hsettled.survives.of_sameFiles halike.2

/-- Removing the plan, then calls that change nothing that counts. -/
theorem removePlan_performed {plan : List HeaderHash}
    (hdeleting : Deleting plan [] target store.files) {rest : Disk Body Unit}
    (hrest : Stays Performed False Alike rest) :
    Yields Performed (.ignore (removeFile .wal) >>= fun _ => rest) store
      (fun _ next => SameMemory store next ∧ Settled target next.files)
      fun next => Survives target next.files := by
  refine (removeFile_performed .wal store).seq (fun _ cleared hcleared => ?_)
    fun _ hstopped => hstopped ▸ hdeleting.survives
  have hsettled : Settled target cleared.files := hdeleting.settled hcleared
  exact (hrest cleared).mono (fun _ _ halike => ⟨IsTrans.trans _ _ _ hcleared.memory halike.1,
      hsettled.of_sameFiles halike.2⟩)
    (fun _ _ => And.left) fun _ halike => hsettled.survives.of_sameFiles halike.2

theorem applyDeletePlan_performed (hsurvives : Survives target store.files) {pending : Bool}
    (hpending : pending = (store.files.lookup .wal).isSome) :
    Yields Performed (FileVolatile.applyDeletePlan pending) store
      (fun _ next => Settled target next.files) fun next => Survives target next.files := by
  cases pending with
  | false =>
    have habsent : store.files.lookup .wal = none := by simpa using hpending.symm
    exact .pure (hsurvives.settled (by rw [planned, habsent]))
  | true =>
    have hend : ∀ plan (current : FileStore Body), Deleting plan [] target current.files →
        Yields Performed (.ignore (removeFile .wal) >>= fun _ => .ignore syncDir) current
          (fun _ next => Settled target next.files) fun next => Survives target next.files := by
      intro plan current hdeleting
      exact (removePlan_performed hdeleting (.ignore (syncDir_stays fun _ => trivial))).mono
        (fun _ _ hnext => hnext.2) fun _ hstopped => hstopped
    refine (readFile_performed .wal).seq (fun content after hafter => ?_)
      fun _ hstopped => hstopped ▸ hsurvives
    obtain ⟨rfl, hcontent⟩ := hafter
    have hdeleting := hsurvives.deleting
    cases content with
    | error reason =>
      obtain ⟨found, hfound⟩ := Option.isSome_iff_exists.mp hpending.symm
      cases (hcontent found).mpr hfound
    | ok content =>
      have hlookup : after.files.lookup .wal = some content := (hcontent content).mp rfl
      cases content with
      | plan hashes =>
        have hplanned : planned after.files = hashes := by rw [planned, hlookup]
        rw [hplanned] at hdeleting
        exact (removeBlocks_performed hdeleting).seq
          (fun _ next hnext => hend hashes next hnext.2)
          fun _ hstopped => hstopped
      | block block =>
        have hnone := hsurvives.wellNamed.wal
        rw [readable, hlookup] at hnone
        cases hnone
      | unreadable =>
        have hplanned : planned after.files = [] := by rw [planned, hlookup]
        rw [hplanned] at hdeleting
        exact hend [] after hdeleting

/-- **Opening is repeatable.**  An `open` keeps what survives at each of its calls, and one that
ends has read exactly that. -/
theorem openStore_performed (hsurvives : Survives target store.files) (orders : Orders) :
    Yields Performed (FileVolatile.openStore orders) store
      (fun _ next => Opened orders target next) fun next => Survives target next.files := by
  refine (plainCall_stays not_performed_fail).seq_quiet (fun _ created hcreated => ?_)
    fun _ halike => hsurvives.of_sameFiles halike.2
  have hcreated := hsurvives.of_sameFiles hcreated.2
  refine (fileExists_performed .dirtyFlag).seq (fun hadDirty asked hasked => ?_)
    fun _ hstopped => hstopped ▸ hcreated
  obtain ⟨rfl, -⟩ := hasked
  refine (removeTmpFiles_stays orders hadDirty).seq_quiet (fun _ cleaned hcleaned => ?_)
    fun _ halike => hcreated.of_sameFiles halike.2
  have hcleaned := hcreated.of_sameFiles hcleaned.2
  refine (fileExists_performed .wal).seq (fun pending looked hlooked => ?_)
    fun _ hstopped => hstopped ▸ hcleaned
  obtain ⟨rfl, hpending⟩ := hlooked
  refine (applyDeletePlan_performed hcleaned hpending).seq (fun _ settled hsettled => ?_)
    fun _ hstopped => hstopped
  exact loadBlocks_clearDirty_performed hsettled orders hadDirty

/-- The immutable store writes no plan and looks for none. -/
theorem openImmutable_performed (hsettled : Settled target store.files) (orders : Orders) :
    Yields Performed (FileImmutable.openStore orders) store
      (fun _ next => Opened orders target next) fun next => Survives target next.files := by
  refine (plainCall_stays not_performed_fail).seq_quiet (fun _ created hcreated => ?_)
    fun _ halike => hsettled.survives.of_sameFiles halike.2
  have hcreated := hsettled.of_sameFiles hcreated.2
  refine (fileExists_performed .dirtyFlag).seq (fun hadDirty asked hasked => ?_)
    fun _ hstopped => hstopped ▸ hcreated.survives
  obtain ⟨rfl, -⟩ := hasked
  refine (removeTmpFiles_stays orders hadDirty).seq_quiet (fun _ cleaned hcleaned => ?_)
    fun _ halike => hcreated.survives.of_sameFiles halike.2
  exact loadBlocks_clearDirty_performed (hcreated.of_sameFiles hcleaned.2) orders hadDirty

end

end Yggdrasil.Storage.FileStore
