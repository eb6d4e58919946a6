import Yggdrasil.Library.KeyedMap
import Yggdrasil.Library.Saturating
import Yggdrasil.Node.Sync.ParallelFetch

/-!
# The plan of a fetch and the slots of its peers

`split_range` and the records of the `BlockFetchPool` in `crates/network/src/blockfetch_pool.rs`,
the latter as `execute_multi_peer_blockfetch_plan` keeps them.  A chunk of a split range is one slot
longer than the quotient it is computed from, so the last one may start beyond its end.  A slot is
taken for every chunk before the first fetch and given back with each outcome that is recorded; the
first failure ends the recording.

The mode of the pool and the fragment heads, which only the choice of the peers reads, are left out.
-/

namespace Yggdrasil.Node.Sync

open Ledger Library
open ReorderBuffer (key)

/-! ## Splitting a range -/

/-- The loop of `split_range`, with the number of chunks still to come and the next lower point.
The points between two chunks have no hash yet; slots wrap around as in a release build. -/
def splitLoop (upper : Point) (chunk : UInt64) : Nat → Point → SlotNo → List (Point × Point)
  | 0, _, _ => []
  | 1, lower, _ => [(lower, upper)]
  | remaining + 2, lower, lowerSlot =>
    (lower, .blockPoint (lowerSlot + chunk) 0) ::
      splitLoop upper chunk (remaining + 1) (.blockPoint (lowerSlot + chunk + 1) 0)
        (lowerSlot + chunk + 1)

def splitRange (lower upper : Point) (chunks : UInt64) : List (Point × Point) :=
  if chunks ≤ 1 then [(lower, upper)]
  else match lower, upper with
    | .blockPoint lowerSlot _, .blockPoint upperSlot _ =>
      if upperSlot ≤ lowerSlot then [(lower, upper)]
      else if upperSlot - lowerSlot < chunks then [(lower, upper)]
      else splitLoop upper ((upperSlot - lowerSlot) / chunks) chunks.toNat lower lowerSlot
    | _, _ => [(lower, upper)]

/-- The ranges go from one point to the other, each from the slot after the one before. -/
def Tiles (lower upper : Point) : List (Point × Point) → Prop
  | [] => False
  | [range] => range = (lower, upper) ∧ key lower ≤ key upper
  | range :: next :: rest => range.1 = lower ∧ key lower ≤ key range.2 ∧
      key next.1 = key range.2 + 1 ∧ Tiles next.1 upper (next :: rest)

/-- Every chunk but the last takes one slot more than the quotient. -/
theorem tiles_splitLoop_iff {upperSlot : SlotNo} {upperHash : HeaderHash} {chunk : UInt64}
    (remaining : Nat) {lower : Point} {lowerSlot : SlotNo} (hlower : key lower = lowerSlot.toNat) :
    Tiles lower (.blockPoint upperSlot upperHash)
        (splitLoop (.blockPoint upperSlot upperHash) chunk (remaining + 1) lower lowerSlot) ↔
      lowerSlot.toNat + remaining * (chunk.toNat + 1) ≤ upperSlot.toNat := by
  induction remaining generalizing lower lowerSlot with
  | zero =>
    rw [splitLoop, Tiles, hlower, Nat.zero_mul]
    exact and_iff_right rfl
  | succ remaining ih =>
    have hnext := @ih (.blockPoint (lowerSlot + chunk + 1) 0) _ rfl
    obtain ⟨last, rest, hloop⟩ : ∃ last rest, splitLoop (.blockPoint upperSlot upperHash) chunk
        (remaining + 1) (.blockPoint (lowerSlot + chunk + 1) 0) (lowerSlot + chunk + 1) =
          (.blockPoint (lowerSlot + chunk + 1) 0, last) :: rest := by
      cases remaining <;> exact ⟨_, _, rfl⟩
    rw [splitLoop, hloop, Tiles, ← hloop, hnext, hlower, Nat.add_one_mul]
    have hchunk := chunk.toNat_lt
    have hupper := upperSlot.toNat_lt
    -- a slot that wraps around is below the one before it
    simp only [key, UInt64.toNat_add, UInt64.toNat_one, true_and]
    omega

/-- **A split range is a partition** exactly when it is not split, or when the chunks before the
last one leave it a slot. -/
theorem splitRange_tiles_iff {lowerSlot upperSlot : SlotNo} (hle : lowerSlot ≤ upperSlot)
    (lowerHash upperHash : HeaderHash) (chunks : UInt64) :
    Tiles (.blockPoint lowerSlot lowerHash) (.blockPoint upperSlot upperHash)
        (splitRange (.blockPoint lowerSlot lowerHash) (.blockPoint upperSlot upperHash) chunks) ↔
      chunks ≤ 1 ∨ upperSlot.toNat - lowerSlot.toNat < chunks.toNat ∨
        (chunks.toNat - 1) * ((upperSlot.toNat - lowerSlot.toNat) / chunks.toNat + 1) ≤
          upperSlot.toNat - lowerSlot.toNat := by
  have hslots := hle
  have hsingle : Tiles (.blockPoint lowerSlot lowerHash) (.blockPoint upperSlot upperHash)
      [(.blockPoint lowerSlot lowerHash, .blockPoint upperSlot upperHash)] := ⟨rfl, hslots⟩
  have hspan := UInt64.toNat_sub_of_le _ _ hle
  unfold splitRange
  split
  · rename_i hfew
    exact iff_of_true hsingle (.inl hfew)
  · rename_i hmany
    have hcount : 1 < chunks.toNat := by simpa [UInt64.le_iff_toNat_le] using hmany
    dsimp only
    split
    · rename_i hempty
      have hback := UInt64.le_iff_toNat_le.mp hempty
      exact iff_of_true hsingle (Or.inr (Or.inl (by omega)))
    · split
      · rename_i hshort
        rw [UInt64.lt_iff_toNat_lt, hspan] at hshort
        exact iff_of_true hsingle (.inr (.inl hshort))
      · rename_i hlong
        rw [UInt64.lt_iff_toNat_lt, hspan] at hlong
        obtain ⟨remaining, hremaining⟩ := Nat.exists_eq_add_of_le' hcount.le
        rw [or_iff_right hmany, hremaining, tiles_splitLoop_iff _ rfl, UInt64.toNat_div, hspan,
          hremaining, Nat.add_sub_cancel]
        omega

theorem splitRange_tiles_tenSlots :
    Tiles (.blockPoint 0 1) (.blockPoint 9 2)
      (splitRange (.blockPoint 0 1) (.blockPoint 9 2) 2) :=
  (splitRange_tiles_iff (by decide) 1 2 2).mpr (by decide)

/-- Five slots do not make four chunks of two: the fourth would start behind the last slot. -/
theorem splitRange_overruns :
    splitRange (.blockPoint 0 1) (.blockPoint 4 2) 4 =
        [(.blockPoint 0 1, .blockPoint 1 0), (.blockPoint 2 0, .blockPoint 3 0),
          (.blockPoint 4 0, .blockPoint 5 0), (.blockPoint 6 0, .blockPoint 4 2)] ∧
      ¬ Tiles (.blockPoint 0 1) (.blockPoint 4 2)
        (splitRange (.blockPoint 0 1) (.blockPoint 4 2) 4) := by
  refine ⟨rfl, fun htiles => ?_⟩
  exact absurd htiles.2.2.2.2.2.2.2.2.2.2 (by decide)

/-! ## The records of the pool -/

/-- What the pool records about a peer. -/
structure PeerFetchState where
  inFlight : UInt64
  blocksDelivered : UInt64
  bytesDelivered : UInt64
  consecutiveFailures : UInt32
  lastSuccess : Option Nat
deriving DecidableEq, Repr

namespace PeerFetchState

def new : PeerFetchState := ⟨0, 0, 0, 0, none⟩

variable (state : PeerFetchState)

def noteDispatch : PeerFetchState := { state with inFlight := saturatingAdd state.inFlight 1 }

def noteSuccess (blocks bytes : UInt64) (now : Nat) : PeerFetchState where
  inFlight := saturatingSub state.inFlight 1
  blocksDelivered := saturatingAdd state.blocksDelivered blocks
  bytesDelivered := saturatingAdd state.bytesDelivered bytes
  consecutiveFailures := 0
  lastSuccess := some now

def noteFailure : PeerFetchState :=
  { state with
    inFlight := saturatingSub state.inFlight 1
    consecutiveFailures :=
      if state.consecutiveFailures = -1 then -1 else state.consecutiveFailures + 1 }

end PeerFetchState

/-- How a task ends without blocks: `fetch_one` fails, or it panics. -/
inductive TaskError (Error : Type) where
  | failed (error : Error)
  | panicked
deriving DecidableEq, Repr

/-- A task of a plan that has ended. -/
structure EndedTask (Peer Block Error : Type) where
  assignment : BlockFetchAssignment Peer
  outcome : Except (TaskError Error) (List (List UInt8 × Block))
  endedAt : Nat

section

variable {Peer Block Error : Type} [DecidableEq Peer]

abbrev BlockFetchPool (Peer : Type) := KeyedMap Peer PeerFetchState

/-- The pool starts a record for a peer it does not know. -/
def note (pool : BlockFetchPool Peer) (peer : Peer) (f : PeerFetchState → PeerFetchState) :
    BlockFetchPool Peer :=
  KeyedMap.upsert peer .new f pool

/-- The outcomes are recorded as the tasks end.  The first failure is recorded and ends the call; a
panic ends it with no record. -/
def recordOutcomes : List (EndedTask Peer Block Error) → BlockFetchPool Peer → BlockFetchPool Peer
  | [], pool => pool
  | task :: rest, pool =>
    match task.outcome with
    | .ok blocks =>
      let bytes := (blocks.map fun block => UInt64.ofNat block.1.length).sum
      recordOutcomes rest (note pool task.assignment.peer fun state =>
        state.noteSuccess (.ofNat blocks.length) bytes task.endedAt)
    | .error (.failed _) => note pool task.assignment.peer PeerFetchState.noteFailure
    | .error .panicked => pool

/-- The pool after `execute_multi_peer_blockfetch_plan`, if the call returns; `completion` has the
tasks of the plan as they end.  A plan from the origin is refused first; a plan of one chunk goes the
same way without a task, so that a panic is the caller's. -/
def poolAfterPlan (plan : List (BlockFetchAssignment Peer)) (fromPoint : Point)
    (completion : List (EndedTask Peer Block Error)) (pool : BlockFetchPool Peer) :
    Option (BlockFetchPool Peer) :=
  if 1 < plan.length ∧ fromPoint = .origin then some pool
  else match completion.map EndedTask.outcome with
    | [.error .panicked] => none
    | _ => some (recordOutcomes completion
        (plan.foldl (fun pool assignment => note pool assignment.peer .noteDispatch) pool))

/-- The chunks whose outcomes are recorded. -/
def recorded : List (EndedTask Peer Block Error) → List (BlockFetchAssignment Peer)
  | [] => []
  | task :: rest =>
    match task.outcome with
    | .ok _ => task.assignment :: recorded rest
    | .error (.failed _) => [task.assignment]
    | .error .panicked => []

/-! ## Slots -/

def inFlight (pool : BlockFetchPool Peer) (peer : Peer) : Nat :=
  ((pool.lookup peer).getD .new).inFlight.toNat

/-- How many of the assignments are the peer's. -/
def share (assignments : List (BlockFetchAssignment Peer)) (peer : Peer) : Nat :=
  assignments.countP fun assignment => assignment.peer = peer

theorem inFlight_note (pool : BlockFetchPool Peer) (peer other : Peer)
    (f : PeerFetchState → PeerFetchState) :
    inFlight (note pool peer f) other = if peer = other then
      (f ((pool.lookup other).getD .new)).inFlight.toNat else inFlight pool other := by
  unfold inFlight note KeyedMap.upsert
  split
  · subst other
    rw [AList.lookup_insert]
    rfl
  · rename_i hother
    rw [AList.lookup_insert_ne (Ne.symm hother)]

theorem share_cons (assignment : BlockFetchAssignment Peer)
    (rest : List (BlockFetchAssignment Peer)) (peer : Peer) :
    share (assignment :: rest) peer =
      share rest peer + if assignment.peer = peer then 1 else 0 := by
  simp [share, List.countP_cons]

theorem inFlight_dispatched (plan : List (BlockFetchAssignment Peer)) (pool : BlockFetchPool Peer)
    (peer : Peer) :
    inFlight (plan.foldl (fun pool assignment => note pool assignment.peer .noteDispatch) pool)
      peer = min (inFlight pool peer + share plan peer) (2 ^ 64 - 1) := by
  induction plan generalizing pool with
  | nil =>
    have hword := ((pool.lookup peer).getD .new).inFlight.toNat_lt
    exact (min_eq_left (Nat.le_pred_of_lt hword)).symm
  | cons assignment rest ih =>
    rw [List.foldl_cons, ih, inFlight_note, share_cons, PeerFetchState.noteDispatch,
      toNat_saturatingAdd, ← inFlight, UInt64.toNat_one]
    split_ifs <;> omega

theorem inFlight_recorded (completion : List (EndedTask Peer Block Error))
    (pool : BlockFetchPool Peer) (peer : Peer) :
    inFlight (recordOutcomes completion pool) peer =
      inFlight pool peer - share (recorded completion) peer := by
  induction completion generalizing pool with
  | nil => rfl
  | cons task rest ih =>
    unfold recordOutcomes recorded
    cases task.outcome with
    | ok blocks =>
      rw [ih, inFlight_note, share_cons, PeerFetchState.noteSuccess, toNat_saturatingSub,
        ← inFlight, UInt64.toNat_one]
      split_ifs <;> omega
    | error reason =>
      cases reason with
      | failed error =>
        rw [inFlight_note, share_cons, PeerFetchState.noteFailure, toNat_saturatingSub,
          ← inFlight, UInt64.toNat_one]
        simp only [share, List.countP_nil]
        split_ifs <;> omega
      | panicked => rfl

omit [DecidableEq Peer] in
theorem recorded_sublist (completion : List (EndedTask Peer Block Error)) :
    (recorded completion).Sublist (completion.map EndedTask.assignment) := by
  induction completion with
  | nil => exact List.Sublist.slnil
  | cons task rest ih =>
    unfold recorded
    split
    · exact ih.cons_cons task.assignment
    · exact (List.nil_sublist _).cons_cons task.assignment
    · exact List.nil_sublist _

/-- **Slots come back only with the records.**  When the call returns, every peer has as many slots
in use as before exactly when the plan was refused, or as many outcomes were recorded for each peer
as it was given slots. -/
theorem fetchSlots_returned_iff {plan : List (BlockFetchAssignment Peer)}
    {completion : List (EndedTask Peer Block Error)}
    (hcompletion : (completion.map EndedTask.assignment).Perm plan) (hplan : plan.length < 2 ^ 64)
    (fromPoint : Point) (pool : BlockFetchPool Peer) :
    (∀ after, poolAfterPlan plan fromPoint completion pool = some after →
        ∀ peer, inFlight after peer = inFlight pool peer) ↔
      (1 < plan.length ∧ fromPoint = .origin) ∨
        completion.map EndedTask.outcome = [.error .panicked] ∨
        ∀ peer, share (recorded completion) peer =
          min (share plan peer) (2 ^ 64 - 1 - inFlight pool peer) := by
  unfold poolAfterPlan
  split
  · rename_i hrefused
    exact iff_of_true (fun _ hafter _ => by cases hafter; rfl) (.inl hrefused)
  rename_i hrun
  rw [or_iff_right hrun]
  split
  · rename_i hpanic
    exact iff_of_true nofun (.inl hpanic)
  · rename_i hreturns
    rw [or_iff_right hreturns]
    simp only [Option.some.injEq, forall_eq']
    refine forall_congr' fun peer => ?_
    have hword := ((pool.lookup peer).getD .new).inFlight.toNat_lt
    have hfewer : share (recorded completion) peer ≤ share plan peer := by
      rw [share, share, ← hcompletion.countP_eq]
      exact (recorded_sublist completion).countP_le
    have hshare : share plan peer ≤ plan.length := List.countP_le_length
    rw [inFlight_recorded, inFlight_dispatched]
    change inFlight pool peer < 2 ^ 64 at hword
    omega

end

def peerChunks : List (BlockFetchAssignment Bool) :=
  [⟨true, .blockPoint 0 1, .blockPoint 4 0⟩, ⟨false, .blockPoint 5 0, .blockPoint 9 1⟩]

/-- The first peer fails and the second one delivers. -/
def endHalf (assignment : BlockFetchAssignment Bool) : EndedTask Bool Unit Unit :=
  ⟨assignment, if assignment.peer then .error (.failed ()) else .ok [], 0⟩

theorem fetchSlots_returned_iff_peerChunks :
    ((peerChunks.reverse.map endHalf).map EndedTask.assignment).Perm peerChunks ∧
      ∀ after, poolAfterPlan peerChunks (.blockPoint 0 1) (peerChunks.reverse.map endHalf) ∅ =
        some after → ∀ peer, inFlight after peer = inFlight ∅ peer :=
  have hended : ((peerChunks.reverse.map endHalf).map EndedTask.assignment).Perm peerChunks :=
    List.reverse_perm peerChunks
  ⟨hended, (fetchSlots_returned_iff hended (by decide) _ _).mpr (.inr (.inr (by decide)))⟩

/-- If the failure comes first, the other peer's slot stays taken. -/
theorem fetchSlots_lost :
    inFlight (∅ : BlockFetchPool Bool) false = 0 ∧
      (poolAfterPlan peerChunks (.blockPoint 0 1) (peerChunks.map endHalf) ∅).map
        (fun after => inFlight after false) = some 1 := by
  decide

end Yggdrasil.Node.Sync
