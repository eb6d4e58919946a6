import Yggdrasil.Storage.Reopening

/-!
# File stores after an I/O error

Every call to the file system may be refused.  A store is sound if its chain and its index speak of
the same hashes: then `self.index[hash]` never panics, and no block that can still be fetched is
missing from the chain.

Two operations can lose soundness.  `prune_up_to` cuts the chain before it writes the delete plan and
leaves if the plan cannot be written (`pruneUpTo_decides`).  A trim forgets the blocks one by one and
cuts the chain at the end, so it must not fail once a block is forgotten (`trim_decides`).
-/

namespace Yggdrasil.Storage

open Ledger Library

variable {Body : Type}

namespace FileStore

/-- The chain and the index have the same hashes. -/
def Sound (store : FileStore Body) : Prop :=
  ∀ hash, hash ∈ store.chain ↔ (store.index.lookup hash).isSome = true

/-- The memory holds some list of blocks. -/
def Intact (store : FileStore Body) : Prop := ∃ blocks, store.Holds blocks

theorem Intact.sound {store : FileStore Body} (hintact : store.Intact) : store.Sound := by
  obtain ⟨blocks, hholds⟩ := hintact
  intro hash
  rw [hholds.chain, hholds.lookup, lookupIn_isSome_iff]

theorem Intact.of_sameMemory {store next : FileStore Body} (hintact : store.Intact)
    (hsame : SameMemory store next) : next.Intact :=
  hintact.imp fun _ hholds => hholds.of_sameMemory hsame

/-! ## Operations under any verdicts -/

section

variable {store : FileStore Body} {blocks : List (Block Body)}

/-- However an operation ends, short of a stop, its store has the property. -/
def endsIn {Value : Type} (property : FileStore Body → Prop) :
    Promise (FileStore Body) StorageError Value where
  returned _ := property
  threw _ := property
  stopped _ := True

/-- Every verdict is allowed. -/
def AnyVerdict (_ : Verdict) : Prop := True

variable {Value : Type} {program : Disk Body Value}

theorem meets_of_keepsMemory (hkeeps : Stays AnyVerdict True SameMemory program)
    (hintact : store.Intact) :
    Meets AnyVerdict program store (endsIn Intact) :=
  (hkeeps store).mono (fun _ _ hsame => hintact.of_sameMemory hsame)
    (fun _ _ hsame => hintact.of_sameMemory hsame.2) fun _ _ => trivial

theorem keepsMemory_seq {Other : Type} {first : Disk Body Value} {next : Value → Disk Body Other}
    {mayThrow : Prop} (hfirst : Stays AnyVerdict mayThrow SameMemory first)
    (hholds : store.Holds blocks)
    (hnext : ∀ value (after : FileStore Body), after.Holds blocks →
      Meets AnyVerdict (next value) after (endsIn Intact)) :
    Meets AnyVerdict (first >>= next) store (endsIn Intact) :=
  hfirst.seq_meets (fun value after hsame => hnext value after (hholds.of_sameMemory hsame))
    (fun _ _ _ hsame => ⟨blocks, hholds.of_sameMemory hsame⟩) fun _ _ => trivial

theorem appendBlock_intact (block : Block Body) (hholds : store.Holds blocks) :
    Meets AnyVerdict (appendBlock block) store (endsIn Intact) := by
  refine .read_seq ?_
  split
  · exact .throw ⟨blocks, hholds⟩
  · rename_i habsent
    have hnew : block.header.hash ∉ blocks.map blockHash := by
      rw [← lookupIn_isSome_iff, ← hholds.lookup]
      exact habsent
    refine keepsMemory_seq markDirty_keepsMemory hholds fun _ dirty hdirty => ?_
    refine keepsMemory_seq (atomicWriteFile_keepsMemory _ _) hdirty fun _ written hwritten => ?_
    exact .update_seq (meets_of_keepsMemory markClean_keepsMemory ⟨_, hwritten.pushed hnew⟩)

/-- Once the chain is cut, forgetting what was cut off makes the store intact again. -/
theorem dropBlocks_intact {Value : Type} {cut : FileStore Body} {kept : List (Block Body)}
    {removed : List HeaderHash} (hholds : store.Holds blocks) (hkeeps : Keeps blocks kept removed)
    (hchain : cut.chain = kept.map blockHash) (hindex : cut.index = store.index)
    {rest : Unit → Disk Body Value} (hrest : ∀ value, Stays AnyVerdict True SameMemory (rest value)) :
    Meets AnyVerdict (.forEach FileVolatile.dropBlock removed >>= rest) cut (endsIn Intact) := by
  refine (dropBlocks_forgets removed cut).seq (fun value next hforgot => ?_) fun _ _ => trivial
  rw [Forgot, hindex, hchain] at hforgot
  exact meets_of_keepsMemory (hrest value) ⟨kept, hholds.forget hkeeps hforgot.1 hforgot.2⟩

theorem endsIn_state {property : FileStore Body → Prop}
    (hmeets : Meets AnyVerdict program store (endsIn property)) {verdicts : List Verdict}
    (hends : (program { state := store, verdicts }).1 ≠ .stopped) :
    property (program { state := store, verdicts }).2.state := by
  have hkept := (hmeets verdicts fun _ _ => trivial).1
  cases hending : (program { state := store, verdicts }).1 with
  | returned value | threw error => rwa [hending] at hkept
  | panicked => rw [hending] at hkept; exact hkept.elim
  | stopped => exact absurd hending hends

/-- A guard decides whether a store stays intact or becomes unsound. -/
def Decides (guard : Bool) (store : FileStore Body) : Prop :=
  guard = true ∧ store.Intact ∨ guard = false ∧ ¬ store.Sound

end

end FileStore

namespace FileVolatile

open FileStore

variable {store : FileStore Body} {blocks : List (Block Body)}

theorem rollbackTo_intact (point : Point) (hholds : store.Holds blocks) :
    Meets AnyVerdict (rollbackTo point) store (endsIn Intact) := by
  have hend : Stays AnyVerdict True SameMemory
      (.ignore clearDeleteWal >>= fun _ => .ignore markClean : Disk Body Unit) :=
    .seq (.ignore clearDeleteWal_keepsMemory) fun _ => .ignore markClean_keepsMemory
  cases point with
  | origin =>
    refine keepsMemory_seq (.ignore markDirty_keepsMemory : Stays _ True _ _) hholds
      fun _ dirty hdirty => .read_seq ?_
    refine keepsMemory_seq (.ignore (writeDeleteWal_keepsMemory _) : Stays _ True _ _) hdirty
      fun _ planned hplanned => ?_
    have hfiles : Stays AnyVerdict True SameMemory
        (.forEach removeBlockFiles dirty.chain : Disk Body Unit) :=
      .forEach fun hash _ => removeBlockFiles_keepsMemory hash
    refine keepsMemory_seq hfiles hplanned fun _ removed _ => .update_seq ?_
    exact meets_of_keepsMemory hend ⟨[], rfl, fun _ => rfl, List.nodup_nil⟩
  | blockPoint slot hash =>
    refine .read_seq ?_
    cases store.chain.findIdx? (· == hash) with
    | none => exact .pure ⟨blocks, hholds⟩
    | some position =>
      refine keepsMemory_seq (.ignore markDirty_keepsMemory : Stays _ True _ _) hholds
        fun _ dirty hdirty => .update_seq ?_
      refine (Stays.ignore (writeDeleteWal_keepsMemory _)).seq_quiet
        (fun _ planned hplanned => ?_) fun _ _ => trivial
      have hkeeps := keeps_take hholds.distinct (position + 1)
      rw [List.map_drop, ← hholds.chain] at hkeeps
      refine dropBlocks_intact hdirty hkeeps ?_ hplanned.2 fun _ => hend
      rw [hplanned.1, hdirty.chain, List.map_take]

theorem garbageCollect_intact (slot : SlotNo) (hholds : store.Holds blocks) :
    Meets AnyVerdict (garbageCollect slot) store (endsIn Intact) := by
  refine .read_seq ?_
  split
  · exact .pure ⟨blocks, hholds⟩
  · refine keepsMemory_seq (.ignore markDirty_keepsMemory : Stays _ True _ _) hholds
      fun _ dirty hdirty => ?_
    refine keepsMemory_seq (.ignore (writeDeleteWal_keepsMemory _) : Stays _ True _ _) hdirty
      fun _ planned hplanned => ?_
    refine (dropBlocks_forgets _ planned).seq (fun _ dropped hforgot => ?_) fun _ _ => trivial
    rw [expired_eq hholds] at hforgot ⊢
    refine .update_seq (meets_of_keepsMemory ?_ ⟨_, hplanned.retained _ hforgot⟩)
    exact .seq (.ignore clearDeleteWal_keepsMemory) fun _ =>
      .seq (.ignore markClean_keepsMemory) fun _ => .pure _

/-- Whether `prune_up_to` gets past writing its delete plan.  The chain is cut by then. -/
def planWritten (hash : HeaderHash) (machine : Machine (FileStore Body)) : Bool :=
  match markDirty machine with
  | (.returned _, dirty) =>
    match dirty.state.chain.findIdx? (· == hash) with
    | none => true
    | some position =>
      !(writeDeleteWal (dirty.state.chain.take (position + 1))
        { dirty with state := { dirty.state with
            chain := dirty.state.chain.drop (position + 1) } }).1.failed
  | _ => true

variable {verdicts : List Verdict}

/-- The part of `prune_up_to` behind the search for the point. -/
theorem pruneFrom_decides (hholds : store.Holds blocks) {position : Nat}
    (hposition : position < store.chain.length) {next : Disk Body Unit}
    (hnext : next = (do
      writeDeleteWal (store.chain.take (position + 1))
      .forEach dropBlock (store.chain.take (position + 1))
      clearDeleteWal
      markClean)) {cut : FileStore Body}
    (hcut : cut = { store with chain := store.chain.drop (position + 1) })
    (hends : (next { state := cut, verdicts }).1 ≠ .stopped) :
    Decides (!(writeDeleteWal (store.chain.take (position + 1)) { state := cut, verdicts
      }).1.failed)
      (next { state := cut, verdicts }).2.state := by
  subst hnext
  have hkept := writeDeleteWal_keepsMemory (store.chain.take (position + 1)) cut verdicts
    fun _ _ => trivial
  rw [Program.bind_apply] at hends ⊢
  rcases hwritten : writeDeleteWal (store.chain.take (position + 1)) { state := cut, verdicts } with
    ⟨ending, planned⟩
  rw [hwritten] at hkept hends
  cases ending with
  | returned value =>
    have hsame : SameMemory cut planned.state := hkept.1
    have hkeeps := keeps_drop hholds.distinct (position + 1)
    rw [List.map_take, ← hholds.chain] at hkeeps
    refine .inl ⟨rfl, endsIn_state (dropBlocks_intact hholds hkeeps ?_ ?_ fun _ => ?_) hends⟩
    · rw [hsame.1, hcut, hholds.chain, List.map_drop]
    · rw [hsame.2, hcut]
    · exact .seq clearDeleteWal_keepsMemory fun _ => markClean_keepsMemory
  | threw error =>
    -- the last of the hashes cut off is still in the index
    have hsame : SameMemory cut planned.state := hkept.1.2
    refine .inr ⟨rfl, fun hsound => ?_⟩
    have hlost : store.chain[position] ∈ planned.state.chain ↔
        (planned.state.index.lookup store.chain[position]).isSome = true := hsound _
    rw [hsame.1, hsame.2, hcut] at hlost
    have hheld := ((Intact.sound ⟨blocks, hholds⟩) _).mp (List.getElem_mem hposition)
    have hnodup : (store.chain.drop position).Nodup :=
      (hholds.chain ▸ hholds.distinct : store.chain.Nodup).sublist (List.drop_sublist _ _)
    rw [List.drop_eq_getElem_cons hposition] at hnodup
    exact (List.nodup_cons.mp hnodup).1 (hlost.mpr hheld)
  | panicked => exact hkept.1.elim
  | stopped => exact absurd rfl hends

theorem pruneUpTo_decides (hholds : store.Holds blocks) (slot : SlotNo) {hash : HeaderHash}
    (hends : (pruneUpTo (.blockPoint slot hash) { state := store, verdicts }).1 ≠ .stopped) :
    Decides (planWritten hash { state := store, verdicts })
      (pruneUpTo (.blockPoint slot hash) { state := store, verdicts }).2.state := by
  have hkept := markDirty_keepsMemory store verdicts fun _ _ => trivial
  rw [pruneUpTo, Program.bind_apply] at hends ⊢
  rw [planWritten]
  rcases hmarked : markDirty { state := store, verdicts } with ⟨ending, dirty⟩
  rw [hmarked] at hkept hends
  cases ending with
  | returned value =>
    have hdirty : dirty.state.Holds blocks := hholds.of_sameMemory hkept.1
    rw [Program.proceed_returned, Program.read_bind_apply] at hends ⊢
    cases hfound : dirty.state.chain.findIdx? (· == hash) with
    | none =>
      simp only [hfound]
      exact .inl ⟨rfl, blocks, hdirty⟩
    | some position =>
      simp only [hfound] at hends ⊢
      exact pruneFrom_decides hdirty (List.findIdx?_eq_some_iff_getElem.mp hfound).1 rfl rfl hends
  | threw error => exact .inl ⟨rfl, blocks, hholds.of_sameMemory hkept.1.2⟩
  | panicked => exact hkept.1.elim
  | stopped => exact absurd rfl hends

end FileVolatile

namespace FileImmutable

open FileStore

variable {store : FileStore Body} {blocks : List (Block Body)}

/-- Whether a trim fails at its first block or not at all. -/
def trimsAllOrNone (test : SlotNo → Bool) (machine : Machine (FileStore Body)) : Bool :=
  match markDirty machine with
  | (.returned _, dirty) =>
    match selected dirty.state test dirty.state.chain with
    | some (first :: rest) =>
      !(Program.forEach trimBlock (first :: rest) dirty).1.failed || (trimBlock first dirty).1.failed
    | _ => true
  | _ => true

variable {verdicts : List Verdict}

/-- The loop of a trim, when it fails. -/
theorem trimBlocks_threw_decides (hholds : store.Holds blocks) {first : HeaderHash}
    {rest : List HeaderHash} (hfirst : first ∈ store.chain) {error : StorageError}
    {after : Machine (FileStore Body)}
    (hthrew : Program.forEach trimBlock (first :: rest) { state := store, verdicts } =
      (.threw error, after)) :
    Decides (trimBlock first { state := store, verdicts }).1.failed after.state := by
  have hkept := trimBlock_forgets first store verdicts fun _ _ => trivial
  rw [Program.forEach, Program.bind_apply] at hthrew
  rcases htrimmed : trimBlock first { state := store, verdicts } with ⟨ending, next⟩
  rw [htrimmed] at hkept hthrew
  cases ending with
  | returned value =>
    -- the first block is forgotten for good, and still in the chain
    have hforgot : Forgot [first] store next.state := hkept.1
    have hrest := trimBlocks_forget rest next.state next.verdicts fun _ _ => trivial
    rw [Program.proceed_returned] at hthrew
    rw [hthrew] at hrest
    obtain ⟨done, hdone⟩ : ∃ done, Forgot done next.state after.state := hrest.1
    have hboth := hforgot.trans hdone
    refine .inr ⟨rfl, fun hsound => ?_⟩
    have hlost := (hsound first).mp (by rwa [hboth.1])
    rw [hboth.2, without, if_pos (by simp)] at hlost
    cases hlost
  | threw reason =>
    obtain ⟨-, rfl⟩ := Prod.mk.inj hthrew
    exact .inl ⟨rfl, blocks, hholds.of_sameMemory hkept.1⟩
  | panicked => exact hkept.1.elim
  | stopped => cases hthrew

theorem trim_decides (test : SlotNo → Bool) (hholds : store.Holds blocks)
    (hends : (trim test { state := store, verdicts }).1 ≠ .stopped) :
    Decides (trimsAllOrNone test { state := store, verdicts })
      (trim test { state := store, verdicts }).2.state := by
  have hkept := markDirty_keepsMemory store verdicts fun _ _ => trivial
  rw [trim, Program.bind_apply] at hends ⊢
  rcases hmarked : markDirty { state := store, verdicts } with ⟨ending, dirty⟩
  rw [hmarked] at hkept hends
  cases ending with
  | returned value =>
    have hdirty : dirty.state.Holds blocks := hholds.of_sameMemory hkept.1
    have hselected := selected_eq hdirty test
    rw [Program.proceed_returned, Program.read_bind_apply, hselected] at hends ⊢
    obtain ⟨removed, hremoved⟩ : ∃ removed,
        removed = (blocks.filter fun block => test block.header.slotNo).map blockHash := ⟨_, rfl⟩
    rw [← hremoved] at hselected hends ⊢
    change (Program.proceed _ (Program.forEach trimBlock removed dirty)).1 ≠ _ at hends
    change Decides _ (Program.proceed _ (Program.forEach trimBlock removed dirty)).2.state
    have hloop := trimBlocks_forget removed dirty.state dirty.verdicts fun _ _ => trivial
    rcases htrimmed : Program.forEach trimBlock removed dirty with ⟨ending, trimmed⟩
    rw [htrimmed] at hends hloop
    cases ending with
    | returned value =>
      have hforgot := hloop.1
      rw [hremoved] at hforgot
      have hguard : trimsAllOrNone test { state := store, verdicts } = true := by
        rw [trimsAllOrNone, hmarked]
        simp only [hselected]
        cases removed with
        | nil => rfl
        | cons first rest => simp only [htrimmed]; rfl
      rw [Program.proceed_returned, Program.update_bind_apply] at hends ⊢
      rw [hremoved] at hends ⊢
      refine .inl ⟨hguard, endsIn_state (meets_of_keepsMemory ?_ ⟨_, hdirty.retained _ hforgot⟩)
        hends⟩
      exact .seq markClean_keepsMemory fun _ => .pure _
    | threw error =>
      cases removed with
      | nil => cases htrimmed
      | cons first rest =>
        have hfirst : first ∈ dirty.state.chain := by
          have hmem := @List.mem_cons_self _ first rest
          rw [hremoved] at hmem
          rw [hdirty.chain]
          exact (List.filter_sublist.map blockHash).subset hmem
        have hdecides := trimBlocks_threw_decides hdirty hfirst htrimmed
        have hguard : trimsAllOrNone test { state := store, verdicts } =
            (trimBlock first dirty).1.failed := by
          rw [trimsAllOrNone, hmarked]
          simp only [hselected, htrimmed]
          rfl
        rw [hguard]
        exact hdecides
    | panicked => exact hloop.1.elim
    | stopped => exact absurd rfl hends
  | threw error =>
    have hguard : trimsAllOrNone test { state := store, verdicts } = true := by
      rw [trimsAllOrNone, hmarked]
    exact .inl ⟨hguard, blocks, hholds.of_sameMemory hkept.1.2⟩
  | panicked => exact hkept.1.elim
  | stopped => exact absurd rfl hends

end FileImmutable

end Yggdrasil.Storage
