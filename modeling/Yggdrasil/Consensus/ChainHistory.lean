import Yggdrasil.Consensus.ChainState
import Yggdrasil.Library.Runs

/-!
# Whole histories of the volatile window

The window forgets what it has drained, so no single call can tell whether stable history is
being rewritten.  `History` keeps the drained entries beside the window; its `chain` is the
whole chain the node has adopted.

* `History.apply` performs one of the three operations of the window, in any order, with any
  argument; a refused operation changes nothing.
* `consistent_iff_guarded` says exactly which runs keep the chain consecutive.  The operations
  themselves do not: a rollback to the origin is measured against the window only, and a block
  rolled forward onto an empty window is compared with nothing, although older entries have
  already been drained.
-/

namespace Yggdrasil.Consensus

open Ledger Library

/-- The entries drained so far and the current window. -/
structure History where
  drained : List ChainEntry
  window : ChainState
deriving DecidableEq, Repr

/-- One call of a mutating operation of the window. -/
inductive WindowOp where
  | rollForward (entry : ChainEntry)
  | rollBackward (target : Point)
  | drainStable
deriving DecidableEq, Repr

namespace History

variable (history : History)

/-- The whole chain: everything drained, then the window. -/
def chain : List ChainEntry := history.drained ++ history.window.entries

/-- Perform one operation; an `Err` leaves the window as it was. -/
def apply : WindowOp → History
  | .rollForward entry =>
    match history.window.rollForward entry with
    | .ok window => { history with window }
    | .error _ => history
  | .rollBackward target =>
    match history.window.rollBackward target with
    | .ok window => { history with window }
    | .error _ => history
  | .drainStable =>
    { drained := history.drained ++ history.window.drainStable.1,
      window := history.window.drainStable.2 }

/-- `later` has the next block number and no smaller slot. -/
def Follows (earlier later : ChainEntry) : Prop :=
  later.blockNo.toNat = earlier.blockNo.toNat + 1 ∧ earlier.slot ≤ later.slot

instance (earlier later : ChainEntry) : Decidable (Follows earlier later) :=
  inferInstanceAs (Decidable (_ ∧ _))

/-- Block numbers are consecutive and slots do not decrease along the whole chain. -/
def Consistent : Prop := history.chain.IsChain Follows

instance (history : History) : Decidable history.Consistent :=
  inferInstanceAs (Decidable (List.IsChain _ _))

/-- What the window does not check by itself when it accepts a block: on an empty window, that
the block follows the last drained entry; on a non-empty one, that the tip's block number has a
successor in 64 bits. -/
def Guarded : WindowOp → Prop
  | .rollForward entry =>
    (∃ window, history.window.rollForward entry = .ok window) →
      (history.window.entries = [] → ∀ last ∈ history.drained.getLast?, Follows last entry) ∧
      ∀ last ∈ history.window.entries.getLast?, last.blockNo.toNat + 1 < 2 ^ 64
  | .rollBackward _ => True
  | .drainStable => True

variable {entry : ChainEntry} {window : ChainState}

theorem apply_rollForward_of_ok {history : History}
    (hroll : history.window.rollForward entry = .ok window) :
    (history.apply (.rollForward entry)).chain = history.chain ++ [entry] := by
  have happly : history.apply (.rollForward entry) = { history with window } := by
    simp [apply, hroll]
  obtain ⟨rfl, -⟩ := ChainState.rollForward_eq_ok_iff.mp hroll
  rw [happly]
  simp [chain]

/-- A drain moves entries inside the chain and changes nothing else. -/
theorem apply_drainStable_chain : (history.apply .drainStable).chain = history.chain := by
  simp [apply, chain, ChainState.drainStable_append]

theorem apply_rollBackward_chain (target : Point) :
    (history.apply (.rollBackward target)).chain <+: history.chain := by
  cases hroll : history.window.rollBackward target with
  | error reason =>
    simp only [apply, hroll]
    exact List.prefix_refl _
  | ok window =>
    simp only [apply, hroll]
    obtain ⟨-, hfront⟩ := ChainState.rollBackward_keeps_front hroll
    exact (List.prefix_append_right_inj _).mpr hfront

/-- The last entry of the chain is the window's, or the last drained one when the window is
empty. -/
theorem getLast?_chain :
    history.chain.getLast? =
      if history.window.entries = [] then history.drained.getLast?
      else history.window.entries.getLast? := by
  unfold chain
  by_cases hempty : history.window.entries = []
  · simp [hempty]
  · rw [if_neg hempty, List.getLast?_append_of_ne_nil _ hempty]

/-- Against a non-empty window an accepted block follows the tip, unless the tip's block
number is the largest 64-bit one. -/
theorem follows_iff_of_accepted {next : ChainState} {last : ChainEntry}
    (hlast : last ∈ window.entries.getLast?) (hroll : window.rollForward entry = .ok next) :
    Follows last entry ↔ last.blockNo.toNat + 1 < 2 ^ 64 := by
  obtain ⟨-, hchecks⟩ := ChainState.rollForward_eq_ok_iff.mp hroll
  obtain ⟨hnumber, hslot, -⟩ := hchecks last hlast
  have hvalue : entry.blockNo.toNat = (last.blockNo.toNat + 1) % 2 ^ 64 := by
    rw [hnumber]
    rfl
  constructor
  · rintro ⟨hnext, -⟩
    omega
  · intro hfits
    exact ⟨by rw [hvalue, Nat.mod_eq_of_lt hfits], hslot⟩

/-- One accepted block keeps a consistent chain consistent exactly when it follows the last
entry of the whole chain. -/
theorem consistent_rollForward_iff {history : History} (hconsistent : history.Consistent)
    (hroll : history.window.rollForward entry = .ok window) :
    (history.apply (.rollForward entry)).Consistent ↔
      ∀ last ∈ history.chain.getLast?, Follows last entry := by
  unfold Consistent at *
  rw [apply_rollForward_of_ok hroll, List.isChain_append]
  simp [hconsistent]

/-- The exact step: out of a consistent history, an operation leads to a consistent one if and
only if it is guarded. -/
theorem consistent_apply_iff {history : History} (hconsistent : history.Consistent)
    (op : WindowOp) : (history.apply op).Consistent ↔ history.Guarded op := by
  cases op with
  | drainStable =>
    simp only [Guarded, iff_true]
    unfold Consistent at *
    rwa [apply_drainStable_chain]
  | rollBackward target =>
    simp only [Guarded, iff_true]
    exact List.IsChain.prefix hconsistent (apply_rollBackward_chain history target)
  | rollForward entry =>
    cases hroll : history.window.rollForward entry with
    | error reason =>
      have hsame : history.apply (.rollForward entry) = history := by
        simp [apply, hroll]
      simp [hsame, hconsistent, Guarded, hroll]
    | ok window =>
      rw [consistent_rollForward_iff hconsistent hroll, getLast?_chain]
      have haccepted : ∃ next, history.window.rollForward entry = .ok next := ⟨window, hroll⟩
      simp only [Guarded, haccepted, forall_const]
      by_cases hempty : history.window.entries = []
      · simp [hempty]
      · simp only [hempty, if_false, false_implies, true_and]
        refine forall₂_congr fun last hlast => ?_
        exact follows_iff_of_accepted hlast hroll

end History

/-- The window driven by arbitrary operations from an empty state. -/
def windowSystem (k : UInt64) : TransitionSystem History WindowOp where
  start := { drained := [], window := ChainState.new k }
  enabled := fun _ _ => True
  step := History.apply

/-- **Stable history.**  Over any run of the three operations, the drained entries followed by
the window have consecutive block numbers and non-decreasing slots in every state reached, if
and only if every accepted roll-forward of the run is guarded in the state it is made in. -/
theorem consistent_iff_guarded (k : UInt64) (ops : List WindowOp) :
    (∀ done, done <+: ops → ((windowSystem k).run done).Consistent) ↔
      ∀ done op, done ++ [op] <+: ops → ((windowSystem k).run done).Guarded op := by
  apply TransitionSystem.invariant_iff_guarded (windowSystem k) (fun _ => True)
  · trivial
  · simp [windowSystem, History.Consistent, History.chain]
  · intro _ _ _ _
    trivial
  · intro history op _ _ hconsistent
    exact History.consistent_apply_iff hconsistent op
  · intro _ _ _
    trivial

/-- Two blocks, a drain that makes the first of them stable under `k = 1`, a rollback to the
origin, and a different block at height zero. -/
def originRollback : List WindowOp :=
  [.rollForward { hash := 1, slot := 0, blockNo := 0, prevHash := none },
   .rollForward { hash := 2, slot := 10, blockNo := 1, prevHash := some 1 },
   .drainStable,
   .rollBackward .origin,
   .rollForward { hash := 3, slot := 5, blockNo := 0, prevHash := none }]

/-- The rollback to the origin is accepted after a block has been drained, and the next block
is adopted in the place of the drained one. -/
theorem originRollback_inconsistent :
    ((windowSystem 1).run originRollback).drained.map ChainEntry.blockNo = [0] ∧
      ((windowSystem 1).run originRollback).window.entries.map ChainEntry.blockNo = [0] ∧
      ¬ ((windowSystem 1).run originRollback).Consistent := by
  decide

end Yggdrasil.Consensus
