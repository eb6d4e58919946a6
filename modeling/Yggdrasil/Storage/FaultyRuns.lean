import Yggdrasil.Storage.IoErrors

/-!
# Runs of a file store with I/O errors

What an `open` returns is sound whatever files it could read, and a sound store answers every query.
A run of operations keeps its store sound exactly if no prune fails at writing its delete plan and no
trim fails after its first block (`sound_iff_guarded`).
-/

namespace Yggdrasil.Storage

open Ledger Library

variable {Body : Type}

/-! ## Opening -/

namespace FileStore

/-- Every block found is filed under its own hash. -/
def OwnHashes (found : KeyedMap HeaderHash (Block Body × Bool)) : Prop :=
  ∀ hash entry, found.lookup hash = some entry → entry.1.header.hash = hash

variable {found : KeyedMap HeaderHash (Block Body × Bool)}

theorem OwnHashes.enterBlock (hown : OwnHashes found) (fromCbor : Bool) (block : Block Body) :
    OwnHashes (enterBlock fromCbor found block) := by
  intro hash entry hentry
  by_cases hsame : hash = block.header.hash
  · subst hsame
    rw [lookup_enterBlock] at hentry
    cases hheld : found.lookup block.header.hash with
    | none => simp only [hheld, Option.some.injEq] at hentry; rw [← hentry]
    | some held =>
      have hheldHash := hown _ _ hheld
      obtain ⟨other, _ | _⟩ := held
      · simp only [hheld] at hentry
        split at hentry
        · cases hentry; rfl
        · cases hentry; exact hheldHash
      · simp only [hheld] at hentry
        cases hentry
        exact hheldHash
  · rw [lookup_enterBlock_ne fromCbor found hsame] at hentry
    exact hown hash entry hentry

/-- The scan of the directory, whatever files can be read. -/
theorem scanFiles_ownHashes (names : List FileName) (hown : OwnHashes found)
    (store : FileStore Body) :
    Meets AnyVerdict (scanFiles found names) store
      { returned := fun next _ => OwnHashes next, threw := fun _ _ => True
        stopped := fun _ => True } := by
  induction names generalizing found store with
  | nil => exact .pure hown
  | cons name rest ih =>
    have hscan : Meets AnyVerdict (scanFile found name) store
        { returned := fun next _ => OwnHashes next, threw := fun _ _ => True
          stopped := fun _ => True } := by
      have hscanAs : ∀ fromCbor, Meets AnyVerdict (scanFile.scanAs found name fromCbor) store
          { returned := fun next _ => OwnHashes next, threw := fun _ _ => True
            stopped := fun _ => True } := by
        intro fromCbor
        have hread : Stays AnyVerdict True (fun _ _ => True)
            (Program.attempt (readFile name) : Disk Body _) := .attempt fun _ => .call
              (fun _ _ _ => trivial) (fun _ _ => ⟨trivial, trivial⟩) (fun _ => ⟨trivial, trivial⟩)
              fun _ => trivial
        refine hread.seq_meets (fun content after _ => ?_) (fun _ _ _ _ => trivial) fun _ _ => trivial
        split
        · exact .pure (hown.enterBlock fromCbor _)
        · exact .pure hown
      cases name with
      | cbor hash => exact hscanAs true
      | json hash | wal => exact hscanAs false
      | tmp hash => exact .pure hown
      | walTmp | dirtyFlag => exact .pure hown
    exact hscan.seq (fun next after hnext => ih hnext after) (fun _ _ _ => trivial) fun _ _ => trivial

theorem load_intact (hown : OwnHashes found) (orders : Orders) (store : FileStore Body) :
    (load (sortedBlocks orders found) store).Holds (sortedBlocks orders found) := by
  have hperm : (sortedBlocks orders found).Perm
      (found.keys.filterMap fun hash => (found.lookup hash).map Prod.fst) :=
    (List.mergeSort_perm _ _).trans ((orders.values_perm found.keys).filterMap _)
  have hhash : ∀ hash block, (found.lookup hash).map Prod.fst = some block →
      block.header.hash = hash := by
    intro hash block hblock
    obtain ⟨entry, hentry, rfl⟩ := Option.map_eq_some_iff.mp hblock
    exact hown hash entry hentry
  have hdistinct := (hperm.map blockHash).nodup_iff.mpr (nodup_filterMap_hashes hhash
    found.keys_nodup)
  exact ⟨rfl, fun hash => lookup_load hdistinct store hash, hdistinct⟩

/-- What is promised of an `open`: a store that it returns is intact. -/
def opensIntact : Promise (FileStore Body) StorageError Unit where
  returned _ := Intact
  threw _ _ := True
  stopped _ := True

theorem loadBlocks_intact (orders : Orders) (hadDirty : Bool) (store : FileStore Body) :
    Meets AnyVerdict (loadBlocks orders >>= fun _ => clearDirty hadDirty) store opensIntact := by
  have hload : Meets AnyVerdict (loadBlocks orders) store opensIntact := by
    have hlist : Stays AnyVerdict True SameMemory
        (readDir orders.blockListing : Disk Body (List FileName)) :=
      call_keepsMemory fun _ _ _ hok => by cases hok; exact ⟨rfl, rfl⟩
    refine hlist.seq_meets (fun names listed _ => ?_) (fun _ _ _ _ => trivial) fun _ _ => trivial
    have hempty : OwnHashes (∅ : KeyedMap HeaderHash (Block Body × Bool)) := nofun
    refine (scanFiles_ownHashes names hempty listed).seq (fun found after hown => ?_)
      (fun _ _ _ => trivial) fun _ _ => trivial
    exact .update ⟨_, load_intact hown orders after⟩
  refine hload.seq (fun _ loaded hintact => ?_) (fun _ _ _ => trivial) fun _ _ => trivial
  exact (meets_of_keepsMemory (keepsMemory_of_alike (clearDirty_stays hadDirty)) hintact).mono
    (fun _ _ hnext => hnext) (fun _ _ _ => trivial) fun _ _ => trivial

/-- Calls that leave the memory alone, then the rest of an `open`. -/
theorem keepsMemory_opens {Value : Type} {first : Disk Body Value} {next : Value → Disk Body Unit}
    {store : FileStore Body} (hfirst : Stays AnyVerdict True SameMemory first)
    (hnext : ∀ value after, Meets AnyVerdict (next value) after opensIntact) :
    Meets AnyVerdict (first >>= next) store opensIntact :=
  hfirst.seq_meets (fun value after _ => hnext value after) (fun _ _ _ _ => trivial)
    fun _ _ => trivial

end FileStore

open FileStore

theorem FileVolatile.applyDeletePlan_keepsMemory (pending : Bool) :
    Stays AnyVerdict True SameMemory (applyDeletePlan pending : Disk Body Unit) := by
  cases pending with
  | false => exact .pure ()
  | true =>
    have hread : Stays AnyVerdict True SameMemory
        (readFile .wal : Disk Body (FileContent Body)) := by
      refine call_keepsMemory fun store value next hok => ?_
      split at hok
      · cases hok
        exact ⟨rfl, rfl⟩
      · cases hok
    refine .seq (.attempt hread) fun content => .seq ?_ fun _ =>
      .seq (.ignore (removeFile_keepsMemory _)) fun _ => .ignore syncDir_keepsMemory
    unfold deletePlanned
    split
    · exact .forEach fun hash _ => removeBlockFiles_keepsMemory hash
    · exact .pure ()

variable (orders : Orders)

theorem FileVolatile.openStore_intact (store : FileStore Body) :
    Meets AnyVerdict (FileVolatile.openStore orders) store opensIntact :=
  keepsMemory_opens plainCall_keepsMemory fun _ _ =>
    keepsMemory_opens (fileExists_keepsMemory _) fun hadDirty _ =>
      keepsMemory_opens (keepsMemory_of_alike (removeTmpFiles_stays orders hadDirty)) fun _ _ =>
        keepsMemory_opens (fileExists_keepsMemory _) fun pending _ =>
          keepsMemory_opens (applyDeletePlan_keepsMemory pending) fun _ current =>
            loadBlocks_intact orders hadDirty current

theorem FileImmutable.openStore_intact (store : FileStore Body) :
    Meets AnyVerdict (FileImmutable.openStore orders) store opensIntact :=
  keepsMemory_opens plainCall_keepsMemory fun _ _ =>
    keepsMemory_opens (fileExists_keepsMemory _) fun hadDirty _ =>
      keepsMemory_opens (keepsMemory_of_alike (removeTmpFiles_stays orders hadDirty)) fun _ current =>
        loadBlocks_intact orders hadDirty current

/-! ## A sound store answers -/

/-- No query panics, and no trim. -/
structure FileStore.Answers (store : FileStore Body) : Prop where
  tip : store.tip.isSome = true
  getTip : (FileImmutable.getTip store).isSome = true
  resolveSuffixStart : ∀ point, (FileImmutable.resolveSuffixStart store point).isSome = true
  getBlockBySlot : ∀ slot, (FileImmutable.getBlockBySlot store slot).isSome = true
  trimBeforeSlot : ∀ slot verdicts,
    (FileImmutable.trimBeforeSlot slot { state := store, verdicts }).1 ≠ .panicked
  trimAfterSlot : ∀ slot verdicts,
    (FileImmutable.trimAfterSlot slot { state := store, verdicts }).1 ≠ .panicked

namespace FileImmutable

variable {store : FileStore Body}

theorem slotOf_isSome (hsound : store.Sound) {hash : HeaderHash} (hmem : hash ∈ store.chain) :
    ∃ slot, slotOf store hash = some slot := by
  obtain ⟨block, hblock⟩ := Option.isSome_iff_exists.mp ((hsound hash).mp hmem)
  exact ⟨block.header.slotNo, by rw [slotOf, hblock]; rfl⟩

theorem searchLoop_isSome {key : Nat → Option SlotNo} (target : SlotNo) {limit base size : Nat}
    (hkey : ∀ position < limit, (key position).isSome = true) (hsize : 0 < size)
    (hfits : base + size ≤ limit) :
    ∃ last, searchLoop key target base size = some last ∧ last < limit := by
  induction size using Nat.strong_induction_on generalizing base with
  | _ size ih =>
    rw [searchLoop]
    by_cases hone : size ≤ 1
    · rw [dif_pos hone]
      exact ⟨base, rfl, by omega⟩
    · rw [dif_neg hone]
      obtain ⟨found, hfound⟩ := Option.isSome_iff_exists.mp (hkey (base + size / 2) (by omega))
      simp only [hfound, Option.bind_eq_bind, Option.bind_some]
      split <;> exact ih (size - size / 2) (by omega) (by omega) (by omega)

theorem getBlockBySlot_isSome (hsound : store.Sound) (slot : SlotNo) :
    (getBlockBySlot store slot).isSome = true := by
  have hkey : ∀ position < store.chain.length,
      (store.chain[position]?.bind (slotOf store)).isSome = true := by
    intro position hposition
    obtain ⟨found, hfound⟩ := slotOf_isSome hsound (List.getElem_mem hposition)
    rw [List.getElem?_eq_getElem hposition, Option.bind_some, hfound]
    rfl
  rw [getBlockBySlot, binarySearchByKey]
  by_cases hempty : store.chain.length = 0
  · rw [if_pos hempty]
    rfl
  · obtain ⟨last, hlast, hlimit⟩ := searchLoop_isSome slot hkey (pos_of_ne_zero hempty)
      (le_of_eq (zero_add _))
    obtain ⟨found, hfound⟩ := Option.isSome_iff_exists.mp (hkey last hlimit)
    rw [if_neg hempty]
    simp only [hlast, hfound, Option.bind_eq_bind, Option.bind_some]
    split <;> rfl

theorem selected_isSome (hsound : store.Sound) (test : SlotNo → Bool) {hashes : List HeaderHash}
    (hhashes : ∀ hash ∈ hashes, hash ∈ store.chain) :
    ∃ removed, selected store test hashes = some removed := by
  induction hashes with
  | nil => exact ⟨[], rfl⟩
  | cons hash rest ih =>
    obtain ⟨slot, hslot⟩ := slotOf_isSome hsound (hhashes hash List.mem_cons_self)
    obtain ⟨others, hothers⟩ := ih fun other hother => hhashes other (List.mem_cons_of_mem _ hother)
    simp [selected, hslot, hothers]

theorem trim_ne_panicked (hsound : store.Sound) (test : SlotNo → Bool) (verdicts : List Verdict) :
    (trim test { state := store, verdicts }).1 ≠ .panicked := by
  have hmeets : Meets AnyVerdict (trim test) store (endsIn fun _ => True) := by
    refine markDirty_keepsMemory.seq_meets (fun _ dirty hsame => .read_seq ?_)
      (fun _ _ _ _ => trivial) fun _ _ => trivial
    have hdirty : dirty.Sound := by
      intro hash
      rw [hsame.1, hsame.2]
      exact hsound hash
    obtain ⟨removed, hremoved⟩ := selected_isSome hdirty test fun _ hmem => hmem
    have hselect : Meets AnyVerdict
        (.orPanic (selected dirty test dirty.chain) : Disk Body (List HeaderHash)) dirty
        (endsIn fun _ => True) := .orPanic hremoved trivial
    refine hselect.seq (fun hashes current _ => ?_) (fun _ _ _ => trivial) fun _ _ => trivial
    refine (trimBlocks_forget hashes current).seq (fun _ _ _ => .update_seq ?_)
      (fun _ _ _ => trivial) fun _ _ => trivial
    exact markClean_keepsMemory.seq_meets (fun _ _ _ => .pure trivial)
      (fun _ _ (_ : True) _ => trivial) fun _ _ => trivial
  intro hpanicked
  have hkept := (hmeets verdicts fun _ _ => trivial).1
  rw [hpanicked] at hkept
  exact hkept

end FileImmutable

theorem FileStore.Sound.tip_isSome {store : FileStore Body} (hsound : store.Sound) :
    store.tip.isSome = true := by
  rw [FileStore.tip]
  cases hlast : store.chain.getLast? with
  | none => rfl
  | some hash =>
    have hheld := (hsound hash).mp (List.mem_of_getLast? hlast)
    simpa using hheld

/-- **A sound store never panics.** -/
theorem FileStore.Sound.answers {store : FileStore Body} (hsound : store.Sound) :
    store.Answers where
  tip := hsound.tip_isSome
  getTip := hsound.tip_isSome
  resolveSuffixStart point := by
    cases point with
    | origin => rfl
    | blockPoint slot hash =>
      rw [FileImmutable.resolveSuffixStart]
      split
      · rename_i first last hfirst hlast
        obtain ⟨firstSlot, hfirstSlot⟩ :=
          FileImmutable.slotOf_isSome hsound (List.mem_of_head? hfirst)
        obtain ⟨lastSlot, hlastSlot⟩ :=
          FileImmutable.slotOf_isSome hsound (List.mem_of_getLast? hlast)
        simp only [hfirstSlot, hlastSlot, Option.bind_eq_bind, Option.bind_some]
        split
        · rfl
        · split
          · rfl
          · split <;> rfl
      · rfl
  getBlockBySlot := FileImmutable.getBlockBySlot_isSome hsound
  trimBeforeSlot slot := FileImmutable.trim_ne_panicked hsound _
  trimAfterSlot slot := FileImmutable.trim_ne_panicked hsound _

/-! ## Runs with I/O errors -/

/-- Whether an operation cannot lose soundness. -/
def VolatileCall.guarded (machine : Machine (FileStore Body)) : VolatileCall Body → Bool
  | .pruneUpTo (.blockPoint _ hash) => FileVolatile.planWritten hash machine
  | _ => true

/-- Whether an operation cannot lose soundness. -/
def ImmutableCall.guarded (machine : Machine (FileStore Body)) : ImmutableCall Body → Bool
  | .appendBlock _ => true
  | .trimBeforeSlot slot => FileImmutable.trimsAllOrNone (fun other => decide (other < slot)) machine
  | .trimAfterSlot slot => FileImmutable.trimsAllOrNone (fun other => decide (other > slot)) machine

/-- Runs of operations on an opened store.  Each comes with the verdicts on its calls to the file
system, and returns or throws. -/
def faultySystem {Call : Type} (program : Call → Disk Body Unit) (opened : FileStore Body) :
    TransitionSystem (FileStore Body) (Call × List Verdict) where
  start := opened
  enabled store action := (program action.1 { state := store, verdicts := action.2 }).1 ≠ .stopped
  step store action := (program action.1 { state := store, verdicts := action.2 }).2.state

instance {Call : Type} (program : Call → Disk Body Unit) (opened store : FileStore Body)
    (action : Call × List Verdict) :
    Decidable ((faultySystem program opened).enabled store action) :=
  inferInstanceAs (Decidable ((program action.1 { state := store, verdicts := action.2 }).1 ≠ _))

section

variable {store : FileStore Body} {blocks : List (Block Body)} {verdicts : List Verdict}

variable {program : Disk Body Unit}

/-- An operation that keeps every store intact. -/
theorem decides_of_intact (hmeets : Meets AnyVerdict program store (endsIn Intact))
    (hends : (program { state := store, verdicts }).1 ≠ .stopped) :
    Decides true (program { state := store, verdicts }).2.state :=
  .inl ⟨rfl, endsIn_state hmeets hends⟩

/-- Dropping the value that a program returns. -/
theorem decides_of_dropped {program : Disk Body Nat} {guard : Bool}
    (hdecides : (program { state := store, verdicts }).1 ≠ .stopped →
      Decides guard (program { state := store, verdicts }).2.state)
    (hends : ((program >>= fun _ => pure ()) { state := store, verdicts }).1 ≠ .stopped) :
    Decides guard ((program >>= fun _ => pure ()) { state := store, verdicts }).2.state := by
  rw [Program.bind_apply] at hends ⊢
  rcases hresult : program { state := store, verdicts } with ⟨ending, after⟩
  rw [hresult] at hdecides hends
  cases ending with
  | returned value => exact hdecides nofun
  | threw error | panicked => exact hdecides nofun
  | stopped => exact absurd rfl hends

theorem VolatileCall.decides (call : VolatileCall Body) (hholds : store.Holds blocks)
    (hends : (call.program { state := store, verdicts }).1 ≠ .stopped) :
    Decides (call.guarded { state := store, verdicts })
      (call.program { state := store, verdicts }).2.state := by
  cases call with
  | addBlock block => exact decides_of_intact (appendBlock_intact block hholds) hends
  | pruneUpTo point =>
    cases point with
    | origin => exact .inl ⟨rfl, blocks, hholds⟩
    | blockPoint slot hash => exact FileVolatile.pruneUpTo_decides hholds slot hends
  | rollbackTo point =>
    exact decides_of_intact (FileVolatile.rollbackTo_intact point hholds) hends
  | garbageCollect slot =>
    exact decides_of_dropped
      (fun hends => .inl ⟨rfl, endsIn_state (FileVolatile.garbageCollect_intact slot hholds) hends⟩)
      hends

theorem ImmutableCall.decides (call : ImmutableCall Body) (hholds : store.Holds blocks)
    (hends : (call.program { state := store, verdicts }).1 ≠ .stopped) :
    Decides (call.guarded { state := store, verdicts })
      (call.program { state := store, verdicts }).2.state := by
  cases call with
  | appendBlock block => exact decides_of_intact (appendBlock_intact block hholds) hends
  | trimBeforeSlot slot =>
    exact decides_of_dropped (FileImmutable.trim_decides (fun other => decide _) hholds)
      hends
  | trimAfterSlot slot =>
    exact decides_of_dropped (FileImmutable.trim_decides (fun other => decide _)
      hholds)
      hends

/-- Operations of which each is decided by its guard: a run is. -/
theorem faultySystem_exact {Call : Type} {program : Call → Disk Body Unit}
    {guarded : Machine (FileStore Body) → Call → Bool}
    (hdecides : ∀ (store : FileStore Body) blocks verdicts call, store.Holds blocks →
      (program call { state := store, verdicts }).1 ≠ .stopped →
      Decides (guarded { state := store, verdicts } call)
        (program call { state := store, verdicts }).2.state)
    {opened : FileStore Body} (hopened : opened.Intact) {actions : List (Call × List Verdict)}
    (hlegal : (faultySystem program opened).Legal actions) :
    (∀ done, done <+: actions → ((faultySystem program opened).run done).Sound) ↔
      ∀ done action, done ++ [action] <+: actions →
        guarded { state := (faultySystem program opened).run done, verdicts := action.2 }
          action.1 = true := by
  refine (faultySystem program opened).property_iff_guarded Intact Sound
    (fun store action => guarded { state := store, verdicts := action.2 } action.1 = true)
    hopened (fun _ => Intact.sound) ?_ ?_ hlegal
  · rintro store ⟨call, verdicts⟩ henabled ⟨blocks, hholds⟩ hguard
    rcases hdecides store blocks verdicts call hholds henabled with ⟨-, hintact⟩ | ⟨hnot, -⟩
    · exact hintact
    · rw [hguard] at hnot
      cases hnot
  · rintro store ⟨call, verdicts⟩ henabled ⟨blocks, hholds⟩ hsound
    rcases hdecides store blocks verdicts call hholds henabled with ⟨hguard, -⟩ | ⟨-, hunsound⟩
    · exact hguard
    · exact absurd hsound hunsound

theorem opened_intact (hmeets : Meets AnyVerdict program store opensIntact)
    {opened : Machine (FileStore Body)}
    (hopened : program { state := store, verdicts } = (.returned (), opened)) :
    opened.state.Intact := by
  have hkept := (hmeets verdicts fun _ _ => trivial).1
  rw [hopened] at hkept
  exact hkept

end

/-- **When I/O errors are harmless.**  A sound store never panics.  In a run of operations on an
opened store in which any call to the file system may fail, every store is sound exactly if no prune
fails at writing its delete plan and no trim fails after its first block. -/
theorem sound_iff_guarded :
    (∀ store : FileStore Body, store.Sound → store.Answers) ∧
    (∀ (orders : Orders) (disk : FileStore Body) (verdicts : List Verdict) opened,
      FileVolatile.openStore orders { state := disk.restart, verdicts } = (.returned (), opened) →
      ∀ actions, (faultySystem VolatileCall.program opened.state).Legal actions →
        ((∀ done, done <+: actions →
            ((faultySystem VolatileCall.program opened.state).run done).Sound) ↔
          ∀ done action, done ++ [action] <+: actions →
            action.1.guarded { state := (faultySystem VolatileCall.program opened.state).run done
                               verdicts := action.2 } = true)) ∧
    (∀ (orders : Orders) (disk : FileStore Body) (verdicts : List Verdict) opened,
      FileImmutable.openStore orders { state := disk.restart, verdicts } = (.returned (), opened) →
      ∀ actions, (faultySystem ImmutableCall.program opened.state).Legal actions →
        ((∀ done, done <+: actions →
            ((faultySystem ImmutableCall.program opened.state).run done).Sound) ↔
          ∀ done action, done ++ [action] <+: actions →
            action.1.guarded { state := (faultySystem ImmutableCall.program opened.state).run done
                               verdicts := action.2 } = true)) := by
  refine ⟨fun _ hsound => hsound.answers, ?_, ?_⟩
  · intro orders disk verdicts opened hopened actions hlegal
    exact faultySystem_exact (fun _ _ _ call hholds hends => call.decides hholds hends)
      (opened_intact (FileVolatile.openStore_intact orders _) hopened) hlegal
  · intro orders disk verdicts opened hopened actions hlegal
    exact faultySystem_exact (fun _ _ _ call hholds hends => call.decides hholds hends)
      (opened_intact (FileImmutable.openStore_intact orders _) hopened) hlegal

/-! ### A failed prune and a failed trim -/

/-- The refusal of the call after `count` others. -/
def refuseAfter (count : Nat) : List Verdict := List.replicate count .succeed ++ [.fail]

/-- A prune whose delete plan cannot be written, and one whose plan cannot be cleared away. -/
def failedPrune (count : Nat) : List (VolatileCall Unit × List Verdict) :=
  [(.addBlock mainBlock, []), (.addBlock nextBlock, []),
    (.pruneUpTo (.blockPoint 5 2), refuseAfter count)]

/-- A trim that fails at one of its two blocks. -/
def failedTrim (count : Nat) : List (ImmutableCall Unit × List Verdict) :=
  [(.appendBlock mainBlock, []), (.appendBlock nextBlock, []), (.trimBeforeSlot 9, refuseAfter count)]

/-- The runs of a new volatile store. -/
abbrev newVolatile : TransitionSystem (FileStore Unit) (VolatileCall Unit × List Verdict) :=
  faultySystem VolatileCall.program newStore

/-- The runs of a new immutable store. -/
abbrev newImmutable : TransitionSystem (FileStore Unit) (ImmutableCall Unit × List Verdict) :=
  faultySystem ImmutableCall.program
    (FileImmutable.openStore plainOrders { state := FileStore.empty.restart, verdicts := [] }).2.state

/-- A prune that cannot clear its plan away and a trim that fails at once leave sound stores. -/
theorem harmlessFailures_sound :
    (∀ done, done <+: failedPrune 13 → (newVolatile.run done).Sound) ∧
      ∀ done, done <+: failedTrim 5 → (newImmutable.run done).Sound :=
  ⟨(sound_iff_guarded.2.1 plainOrders FileStore.empty [] _ rfl (failedPrune 13)
      (newVolatile.legal_of_legalFrom (by decide +kernel))).mpr
      (TransitionSystem.legal_of_legalFrom { newVolatile with
        enabled := fun store action =>
          action.1.guarded { state := store, verdicts := action.2 } = true } (by decide +kernel)),
    (sound_iff_guarded.2.2 plainOrders FileStore.empty [] _ rfl (failedTrim 5)
      (newImmutable.legal_of_legalFrom (by decide +kernel))).mpr
      (TransitionSystem.legal_of_legalFrom { newImmutable with
        enabled := fun store action =>
          action.1.guarded { state := store, verdicts := action.2 } = true } (by decide +kernel))⟩

/-- A prune whose plan cannot be written leaves a block that is found by its hash and is not in the
chain; a trim that fails at its second block leaves a store that panics. -/
theorem failedPrune_failedTrim_unsound :
    newVolatile.Legal (failedPrune 4) ∧ (newVolatile.run (failedPrune 4)).chain = [3] ∧
    FileVolatile.getBlock (newVolatile.run (failedPrune 4)) 2 = some mainBlock ∧
    newImmutable.Legal (failedTrim 8) ∧ (newImmutable.run (failedTrim 8)).chain = [2, 3] ∧
    FileImmutable.getBlock (newImmutable.run (failedTrim 8)) 2 = none ∧
    FileImmutable.resolveSuffixStart (newImmutable.run (failedTrim 8)) (.blockPoint 6 3) = none ∧
    (FileImmutable.trimAfterSlot 0
      { state := newImmutable.run (failedTrim 8), verdicts := [] }).1 = .panicked :=
  ⟨newVolatile.legal_of_legalFrom (by decide +kernel), by decide +kernel, by decide +kernel,
    newImmutable.legal_of_legalFrom (by decide +kernel), by decide +kernel, by decide +kernel,
    by decide +kernel, by decide +kernel⟩

end Yggdrasil.Storage
