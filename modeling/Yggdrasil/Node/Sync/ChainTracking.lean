import Yggdrasil.Consensus.ChainHistory

/-!
# Tracking the chain window during sync

`track_chain_state_entries` of `crates/node/sync/src/lib.rs`: a sync step rolls the window
forward block by block or backward to a point, and then drains the stable entries.  Every block
of a step has a chain entry (all eras do), so a roll-forward step is the list of its entries.

The window is meant to allow rollbacks of up to `k` blocks.  `rollbackWindow_iff` says for which
reachable windows it does: after a drain the entry exactly `k` blocks behind the tip is gone.
-/

namespace Yggdrasil.Node.Sync

open Ledger Library Consensus

/-- One sync step, as far as the chain window sees it. -/
inductive TrackStep where
  | rollForward (entries : List ChainEntry)
  | rollBackward (point : Point)
deriving DecidableEq, Repr

/-- Roll forward block by block.  At the first refused block the earlier blocks of the step
have already been appended and stay. -/
def rollForwardEach (window : ChainState) :
    List ChainEntry → Except ConsensusError Unit × ChainState
  | [] => (.ok (), window)
  | entry :: rest =>
    match window.rollForward entry with
    | .ok next => rollForwardEach next rest
    | .error reason => (.error reason, window)

variable (window : ChainState) (history : History) (step : TrackStep)

/-- Apply one sync step to the window and drain it.  The drain is not reached on an error. -/
def trackChainStateEntries : Except ConsensusError (List ChainEntry) × ChainState :=
  match step with
  | .rollForward entries =>
    match rollForwardEach window entries with
    | (.ok (), next) => (.ok next.drainStable.1, next.drainStable.2)
    | (.error reason, next) => (.error reason, next)
  | .rollBackward point =>
    match window.rollBackward point with
    | .ok next => (.ok next.drainStable.1, next.drainStable.2)
    | .error reason => (.error reason, window)

/-- The history after one tracked step: what it returned is drained, the window is as it left
it (also when it returned an error). -/
def trackHistory : History :=
  match trackChainStateEntries history.window step with
  | (.ok stable, window) => { drained := history.drained ++ stable, window }
  | (.error _, window) => { history with window }

/-- The window driven by sync steps from an empty state. -/
def trackSystem (k : UInt64) : TransitionSystem History TrackStep where
  start := { drained := [], window := ChainState.new k }
  enabled := fun _ _ => True
  step := trackHistory

/-- Every block at depth at most `k` on the whole chain can be rolled back to, and is the tip
afterwards. -/
def RollbackWindow : Prop :=
  ∀ (index : Nat) (hindex : index < history.chain.length),
    history.chain.length - 1 - index ≤ history.window.k.toNat →
      ∃ window, history.window.rollBackward history.chain[index].point = .ok window ∧
        window.tip = history.chain[index].point

/-- The drained entries at depth at most `k` behind the tip of the whole chain. -/
def drainedWithinDepth : List ChainEntry :=
  history.drained.drop (history.chain.length - 1 - history.window.k.toNat)

/-! ## The security parameter along a run -/

theorem rollForwardEach_k (entries : List ChainEntry) :
    (rollForwardEach window entries).2.k = window.k := by
  induction entries generalizing window with
  | nil => rfl
  | cons entry rest ih =>
    cases hroll : window.rollForward entry with
    | error reason => simp only [rollForwardEach, hroll]
    | ok next =>
      obtain ⟨rfl, -⟩ := ChainState.rollForward_eq_ok_iff.mp hroll
      simp only [rollForwardEach, hroll, ih]

theorem trackChainStateEntries_k : (trackChainStateEntries window step).2.k = window.k := by
  cases step with
  | rollForward entries =>
    have hkeep := rollForwardEach_k window entries
    simp only [trackChainStateEntries]
    split
    all_goals
      rename_i heach
      rw [heach] at hkeep
      exact hkeep
  | rollBackward point =>
    cases hroll : window.rollBackward point with
    | error reason => simp only [trackChainStateEntries, hroll]
    | ok next =>
      obtain ⟨hkeep, -⟩ := ChainState.rollBackward_keeps_front hroll
      simp [trackChainStateEntries, hroll, hkeep]

theorem trackHistory_k : (trackHistory history step).window.k = history.window.k := by
  rw [← trackChainStateEntries_k history.window step, trackHistory]
  rcases trackChainStateEntries history.window step with ⟨_ | _, window⟩ <;> rfl

theorem run_trackSystem_k (k : UInt64) (steps : List TrackStep) :
    ((trackSystem k).run steps).window.k = k :=
  (trackSystem k).invariant_of_legal (fun history => history.window.k = k) rfl
    (fun history step _ hkeep => (trackHistory_k history step).trans hkeep)
    (fun _ _ _ => trivial)

/-! ## One rollback -/

/-- A rollback to a point of the window no deeper than `k` succeeds and makes it the tip. -/
theorem rollBackward_of_mem {window : ChainState} {entry : ChainEntry} {position : Nat}
    (hentry : window.entries[position]? = some entry)
    (hdepth : window.entries.length - 1 - position ≤ window.k.toNat) :
    ∃ next, window.rollBackward entry.point = .ok next ∧ next.tip = entry.point := by
  obtain ⟨index, hfound, hle⟩ := ChainState.rposition_ge hentry
  obtain ⟨found, hget, hpoint⟩ := ChainState.rposition_eq_some hfound
  have hshallow : ¬ window.entries.length - 1 - index > window.k.toNat := by omega
  refine ⟨{ window with entries := window.entries.take (index + 1) }, ?_, ?_⟩
  · simp [ChainState.rollBackward, ChainEntry.point, hfound, hshallow]
  · obtain ⟨hbound, hvalue⟩ := List.getElem?_eq_some_iff.mp hget
    have hlast : (window.entries.take (index + 1)).getLast? = some found := by
      rw [List.getLast?_take, Nat.add_sub_cancel, hget]
      rfl
    simp only [ChainState.tip, hlast]
    exact hpoint

/-- A rollback to a block point succeeds only if the window holds an entry at that point. -/
theorem mem_points_of_rollBackward {window next : ChainState} {entry : ChainEntry}
    (hroll : window.rollBackward entry.point = .ok next) :
    entry.point ∈ window.entries.map ChainEntry.point := by
  simp only [ChainState.rollBackward, ChainEntry.point] at hroll
  cases hfound : ChainState.rposition window.entries entry.slot entry.hash with
  | none => simp [hfound] at hroll
  | some index =>
    obtain ⟨found, hget, hpoint⟩ := ChainState.rposition_eq_some hfound
    exact List.mem_map.mpr ⟨found, List.mem_of_getElem? hget, hpoint⟩

/-! ## The rollback window -/

/-- The window offers every rollback of depth at most `k` exactly when each drained block that
is still that close to the tip shares its point with a block of the window. -/
theorem rollbackWindow_iff_drained :
    RollbackWindow history ↔
      ∀ entry ∈ drainedWithinDepth history,
        entry.point ∈ history.window.entries.map ChainEntry.point := by
  have hlength : history.chain.length =
      history.drained.length + history.window.entries.length := List.length_append
  constructor
  · intro hwindow entry hentry
    obtain ⟨offset, hoffset⟩ := List.mem_iff_getElem?.mp hentry
    rw [drainedWithinDepth, List.getElem?_drop] at hoffset
    obtain ⟨hbound, hvalue⟩ := List.getElem?_eq_some_iff.mp hoffset
    -- the drained entry sits at the same index of the whole chain, within depth `k`
    have hindex : history.chain.length - 1 - history.window.k.toNat + offset <
        history.chain.length := by omega
    obtain ⟨next, hroll, -⟩ := hwindow _ hindex (by omega)
    have hsame : history.chain[history.chain.length - 1 - history.window.k.toNat + offset] =
        entry := by
      simp only [History.chain] at hbound hvalue ⊢
      rw [List.getElem_append_left hbound]
      exact hvalue
    rw [hsame] at hroll
    exact mem_points_of_rollBackward hroll
  · intro hdrained index hindex hdepth
    by_cases hside : index < history.drained.length
    · -- a drained block: roll back to the block of the window that shares its point
      have hentry : history.chain[index] = history.drained[index] := by
        exact List.getElem_append_left hside
      have hmem : history.drained[index] ∈ drainedWithinDepth history := by
        rw [drainedWithinDepth, List.mem_drop_iff_getElem]
        exact ⟨index - (history.chain.length - 1 - history.window.k.toNat), by omega,
          by congr 1; omega⟩
      obtain ⟨shadow, hshadow, hpoint⟩ := List.mem_map.mp (hdrained _ hmem)
      obtain ⟨position, hposition⟩ := List.mem_iff_getElem?.mp hshadow
      rw [hentry, ← hpoint]
      exact rollBackward_of_mem hposition (by omega)
    · -- a block of the window, at the same depth there as on the whole chain
      have hposition : history.window.entries[index - history.drained.length]? =
          some history.chain[index] := by
        simp only [History.chain]
        rw [List.getElem_append_right (by omega)]
        exact List.getElem?_eq_getElem _
      exact rollBackward_of_mem hposition (by omega)

/-- Nothing drained, or a window of more than `k` entries: no drained block is within depth `k`. -/
theorem drainedWithinDepth_eq_nil_iff :
    drainedWithinDepth history = [] ↔
      history.drained = [] ∨ history.window.k.toNat < history.window.entries.length := by
  have hlength : history.chain.length =
      history.drained.length + history.window.entries.length := List.length_append
  rw [drainedWithinDepth, List.drop_eq_nil_iff, ← List.length_eq_zero_iff]
  omega

/-- **Rollback window.**  In every state reached by sync steps, all rollbacks of depth at most
`k` succeed exactly when nothing has been drained, or the window is longer than `k` (a step
failed before its drain), or every drained block still within depth `k` shares its point with a
block of the window (which distinct block hashes rule out). -/
theorem rollbackWindow_iff (k : UInt64) (steps : List TrackStep) :
    RollbackWindow ((trackSystem k).run steps) ↔
      ((trackSystem k).run steps).drained = [] ∨
      k.toNat < ((trackSystem k).run steps).window.entries.length ∨
      ∀ entry ∈ drainedWithinDepth ((trackSystem k).run steps),
        entry.point ∈ ((trackSystem k).run steps).window.entries.map ChainEntry.point := by
  have hnil := drainedWithinDepth_eq_nil_iff ((trackSystem k).run steps)
  rw [run_trackSystem_k] at hnil
  rw [rollbackWindow_iff_drained, ← or_assoc, ← hnil]
  constructor
  · exact .inr
  · rintro (hnone | hshared)
    · simp [hnone]
    · exact hshared

/-- Two blocks tracked with `k = 1`: the drain keeps one entry, so the first block is stable
although it is only one block behind the tip. -/
def twoBlocks : List TrackStep :=
  [.rollForward
    [{ hash := 1, slot := 0, blockNo := 0, prevHash := none },
     { hash := 2, slot := 1, blockNo := 1, prevHash := some 1 }]]

/-- The rollback of depth one is refused after `twoBlocks`. -/
theorem twoBlocks_rollback_refused : ¬ RollbackWindow ((trackSystem 1).run twoBlocks) := by
  intro hwindow
  obtain ⟨window, hroll, -⟩ := hwindow 0 (by decide) (by decide)
  have hrefused : ((trackSystem 1).run twoBlocks).window.rollBackward
      ((trackSystem 1).run twoBlocks).chain[0].point =
        .error (.rollbackPointNotFound 0 1) := by decide
  rw [hrefused] at hroll
  exact nomatch hroll

end Yggdrasil.Node.Sync
