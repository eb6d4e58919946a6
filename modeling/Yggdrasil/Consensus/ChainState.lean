import Yggdrasil.Ledger.Types

/-!
# The volatile chain window

`crates/consensus/src/chain_state.rs`: a sliding window of the most recent chain entries.
`rollForward` appends a block, `rollBackward` truncates the window to a point, and
`drainStable` hands the entries beyond the security parameter `k` to immutable storage.

The three operations return the new window, or the error with which the source leaves the
window as it was.
-/

namespace Yggdrasil.Consensus

open Ledger

/-- The errors the window's operations report. -/
inductive ConsensusError where
  | nonContiguousBlock (expected got : UInt64)
  | slotNotIncreasing (tipSlot blockSlot : UInt64)
  | prevHashMismatch (expected got : HeaderHash)
  | rollbackTooDeep (requested max : Nat)
  | rollbackPointNotFound (slot : UInt64) (hash : HeaderHash)
  | invalidActiveSlotCoeff
deriving DecidableEq, Repr

/-- A block's position in the volatile window. -/
structure ChainEntry where
  hash : HeaderHash
  slot : SlotNo
  blockNo : BlockNo
  prevHash : Option HeaderHash
deriving DecidableEq, Repr

/-- The point of an entry. -/
def ChainEntry.point (entry : ChainEntry) : Point := .blockPoint entry.slot entry.hash

/-- The window, oldest entry first, with the security parameter `k`. -/
structure ChainState where
  k : UInt64
  entries : List ChainEntry
deriving DecidableEq, Repr

namespace ChainState

/-- An empty window. -/
def new (k : UInt64) : ChainState := { k, entries := [] }

@[simp] theorem new_entries (k : UInt64) : (new k).entries = [] := rfl

variable (chain : ChainState)

/-- The volatile tip, or the origin when the window is empty. -/
def tip : Point :=
  match chain.entries.getLast? with
  | some entry => entry.point
  | none => .origin

/-- Append a block.  On a non-empty window the block number must follow the tip's, the slot
must not decrease (an epoch-boundary block shares its slot with the next main block), and a
present `prevHash` must be the tip's hash.  An empty window accepts any block. -/
def rollForward (entry : ChainEntry) : Except ConsensusError ChainState :=
  match chain.entries.getLast? with
  | some last =>
    if entry.blockNo ≠ last.blockNo + 1 then
      .error (.nonContiguousBlock (last.blockNo + 1) entry.blockNo)
    else if entry.slot < last.slot then
      .error (.slotNotIncreasing last.slot entry.slot)
    else match entry.prevHash with
      | some prev =>
        if prev ≠ last.hash then
          .error (.prevHashMismatch last.hash prev)
        else
          .ok { chain with entries := chain.entries ++ [entry] }
      | none => .ok { chain with entries := chain.entries ++ [entry] }
  | none => .ok { chain with entries := chain.entries ++ [entry] }

/-- Index of the last entry at the given point. -/
def rposition (entries : List ChainEntry) (slot : SlotNo) (hash : HeaderHash) : Option Nat :=
  (entries.reverse.findIdx? fun entry => entry.slot == slot && entry.hash == hash).map
    fun fromEnd => entries.length - 1 - fromEnd

/-- Drop every entry after `target`, refusing a rollback deeper than `k`. -/
def rollBackward (target : Point) : Except ConsensusError ChainState :=
  match target with
  | .origin =>
    if chain.entries.length > chain.k.toNat then
      .error (.rollbackTooDeep chain.entries.length chain.k.toNat)
    else
      .ok { chain with entries := [] }
  | .blockPoint slot hash =>
    match rposition chain.entries slot hash with
    | some index =>
      if chain.entries.length - 1 - index > chain.k.toNat then
        .error (.rollbackTooDeep (chain.entries.length - 1 - index) chain.k.toNat)
      else
        .ok { chain with entries := chain.entries.take (index + 1) }
    | none => .error (.rollbackPointNotFound slot hash)

/-- Number of entries beyond `k` from the tip. -/
def stableCount : Nat := chain.entries.length - chain.k.toNat

/-- Remove the stable entries from the front of the window and return them. -/
def drainStable : List ChainEntry × ChainState :=
  (chain.entries.take chain.stableCount,
    { chain with entries := chain.entries.drop chain.stableCount })

/-! ## What the operations do -/

/-- An accepted block is appended; the checks it has passed are those against the tip. -/
theorem rollForward_eq_ok_iff {chain next : ChainState} {entry : ChainEntry} :
    chain.rollForward entry = .ok next ↔
      next = { chain with entries := chain.entries ++ [entry] } ∧
        ∀ last ∈ chain.entries.getLast?, entry.blockNo = last.blockNo + 1 ∧
          last.slot ≤ entry.slot ∧ ∀ prev ∈ entry.prevHash, prev = last.hash := by
  unfold rollForward
  cases hlast : chain.entries.getLast? with
  | none => simp [eq_comm]
  | some last =>
    by_cases hnumber : entry.blockNo = last.blockNo + 1
    · by_cases hslot : entry.slot < last.slot
      · simp [hnumber, hslot]
      · cases hprev : entry.prevHash with
        | none => simp [hnumber, hslot, UInt64.not_lt.mp hslot, eq_comm]
        | some prev =>
          by_cases hhash : prev = last.hash
          · simp [hnumber, hslot, hhash, UInt64.not_lt.mp hslot, eq_comm]
          · simp [hnumber, hslot, hhash]
    · simp [hnumber]

variable {entries : List ChainEntry}

theorem rposition_eq_some {slot : SlotNo} {hash : HeaderHash} {index : Nat}
    (hfound : rposition entries slot hash = some index) :
    ∃ entry, entries[index]? = some entry ∧ entry.point = .blockPoint slot hash := by
  obtain ⟨fromEnd, hfind, rfl⟩ := Option.map_eq_some_iff.mp hfound
  obtain ⟨hbound, hmatch, -⟩ := List.findIdx?_eq_some_iff_getElem.mp hfind
  rw [List.length_reverse] at hbound
  have hindex : entries.length - 1 - fromEnd < entries.length := by omega
  refine ⟨entries[entries.length - 1 - fromEnd], List.getElem?_eq_getElem hindex, ?_⟩
  rw [List.getElem_reverse] at hmatch
  simp only [Bool.and_eq_true, beq_iff_eq] at hmatch
  simp [ChainEntry.point, hmatch]

/-- The search finds the *last* entry at the point: no later than any other. -/
theorem rposition_ge {entry : ChainEntry} {position : Nat}
    (hentry : entries[position]? = some entry) :
    ∃ index, rposition entries entry.slot entry.hash = some index ∧ position ≤ index := by
  obtain ⟨hbound, hget⟩ := List.getElem?_eq_some_iff.mp hentry
  unfold rposition
  cases hfind : entries.reverse.findIdx? fun candidate =>
      candidate.slot == entry.slot && candidate.hash == entry.hash with
  | none =>
    have hmem : entry ∈ entries.reverse := by
      rw [List.mem_reverse, ← hget]
      exact List.getElem_mem hbound
    have hnone := List.findIdx?_eq_none_iff.mp hfind entry hmem
    simp at hnone
  | some fromEnd =>
    refine ⟨entries.length - 1 - fromEnd, rfl, ?_⟩
    obtain ⟨hlt, -, hearlier⟩ := List.findIdx?_eq_some_iff_getElem.mp hfind
    rw [List.length_reverse] at hlt
    -- the mirror image of `position` matches, so the search stops no later than there
    by_contra hafter
    have hmirror : entries.length - 1 - position < fromEnd := by omega
    apply hearlier (entries.length - 1 - position) hmirror
    rw [List.getElem_reverse]
    have hback : entries.length - 1 - (entries.length - 1 - position) = position := by omega
    simp [hback, hget]

theorem rollBackward_keeps_front {chain next : ChainState} {target : Point}
    (hroll : chain.rollBackward target = .ok next) :
    next.k = chain.k ∧ next.entries <+: chain.entries := by
  unfold rollBackward at hroll
  cases target with
  | origin =>
    simp only at hroll
    split at hroll
    · cases hroll
    · cases hroll
      exact ⟨rfl, List.nil_prefix⟩
  | blockPoint slot hash =>
    simp only at hroll
    split at hroll
    · split at hroll
      · cases hroll
      · cases hroll
        exact ⟨rfl, List.take_prefix _ _⟩
    · cases hroll

/-- What is drained and what stays are the old window, cut in two. -/
theorem drainStable_append : chain.drainStable.1 ++ chain.drainStable.2.entries = chain.entries :=
  List.take_append_drop _ _

@[simp] theorem drainStable_k : chain.drainStable.2.k = chain.k := rfl

end ChainState

end Yggdrasil.Consensus
