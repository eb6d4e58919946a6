import Yggdrasil.Ledger.Types

/-!
# Fetching a range from several peers

`execute_multi_peer_blockfetch_plan` of `crates/node/sync/src/lib.rs` and the `ReorderBuffer` of
`crates/network/src/blockfetch_pool.rs`.  A plan splits a range of slots into chunks, one task
fetches each chunk, and the tasks end in any order.  The buffer collects the chunks under the slot
of their lower point and gives them out in ascending order, as long as each one's slot is above the
upper point of the one before.

The records of the peer pool, the log lines and a task that panics (which ends the process) are left
out.
-/

namespace Yggdrasil.Node.Sync

open Ledger

/-- One chunk of a plan. -/
structure BlockFetchAssignment (Peer : Type) where
  peer : Peer
  lower : Point
  upper : Point

/-- A range that was delivered. -/
structure FetchedRange (Item : Type) where
  lower : Point
  upper : Point
  blocks : List Item

/-! ## The reorder buffer -/

/-- Insert into a map that is kept as a list in the order of its keys. -/
def insertOrdered {Value : Type} (key : Nat) (value : Value) :
    List (Nat × Value) → List (Nat × Value)
  | [] => [(key, value)]
  | entry :: rest =>
    if key < entry.1 then (key, value) :: entry :: rest
    else if key = entry.1 then (key, value) :: rest
    else entry :: insertOrdered key value rest

structure ReorderBuffer (Item : Type) where
  pending : List (Nat × FetchedRange Item)
  head : Point

namespace ReorderBuffer

variable {Item : Type}

def new (head : Point) : ReorderBuffer Item where
  pending := []
  head := head

/-- The slot under which a range is kept. -/
def key : Point → Nat
  | .origin => 0
  | .blockPoint slot _ => slot.toNat

def insert (buffer : ReorderBuffer Item) (range : FetchedRange Item) : ReorderBuffer Item :=
  { buffer with pending := insertOrdered (key range.lower) range buffer.pending }

/-- The loop of `advance`: what is released, from the lowest pending range on. -/
def releasable : Point → List (Nat × FetchedRange Item) → List (FetchedRange Item)
  | _, [] => []
  | .origin, _ => []
  | .blockPoint slot _, (key, range) :: rest =>
    if key ≤ slot.toNat then [] else range :: releasable range.upper rest

def drainReleasable (buffer : ReorderBuffer Item) : List (FetchedRange Item) :=
  releasable buffer.head buffer.pending

end ReorderBuffer

/-! ## The plan -/

/-- Why a plan fails. -/
inductive PlanError (Error : Type) where
  | originNeedsSinglePeer
  | fetch (error : Error)
deriving DecidableEq, Repr

variable {Peer Item Error : Type}

/-- The head the buffer starts from: one slot before the point, if there is one. -/
def headSeed : Point → Point
  | .origin => .origin
  | .blockPoint slot hash => if slot = 0 then .blockPoint 0 hash else .blockPoint (slot - 1) hash

/-- Collect the tasks' results in the order in which the tasks end; the first error ends it. -/
def collect (fetchOne : BlockFetchAssignment Peer → Except Error (List Item)) :
    List (BlockFetchAssignment Peer) → ReorderBuffer Item →
      Except (PlanError Error) (ReorderBuffer Item)
  | [], buffer => .ok buffer
  | assignment :: rest, buffer =>
    match fetchOne assignment with
    | .ok blocks =>
      collect fetchOne rest (buffer.insert ⟨assignment.lower, assignment.upper, blocks⟩)
    | .error error => .error (.fetch error)

/-- `fetchOne` is what each task returns, and `completion` the order in which the tasks end. -/
def executeMultiPeerBlockfetchPlan (plan : List (BlockFetchAssignment Peer)) (fromPoint : Point)
    (fetchOne : BlockFetchAssignment Peer → Except Error (List Item))
    (completion : List (BlockFetchAssignment Peer)) : Except (PlanError Error) (List Item) :=
  match plan with
  | [] => .ok []
  | [assignment] => (fetchOne assignment).mapError .fetch
  | _ =>
    if fromPoint = .origin then .error .originNeedsSinglePeer
    else do
      let buffer ← collect fetchOne completion (ReorderBuffer.new (headSeed fromPoint))
      return (buffer.drainReleasable.map FetchedRange.blocks).flatten

/-! ## Ascending ranges -/

/-- The assignment is a range of slots. -/
def IsRange (assignment : BlockFetchAssignment Peer) : Prop :=
  ∃ low lowHash high highHash, assignment.lower = .blockPoint low lowHash ∧
    assignment.upper = .blockPoint high highHash ∧ low.toNat ≤ high.toNat

/-- Ranges of slots, each above the one before. -/
structure Ascending (plan : List (BlockFetchAssignment Peer)) : Prop where
  ranges : ∀ assignment ∈ plan, IsRange assignment
  disjoint : plan.Pairwise fun left right =>
    ReorderBuffer.key left.upper < ReorderBuffer.key right.lower

/-- The ranges start at the slot of a point. -/
def StartsAt (plan : List (BlockFetchAssignment Peer)) (slot : SlotNo) : Prop :=
  ∀ first ∈ plan.head?, ReorderBuffer.key first.lower = slot.toNat

/-! ## The order of the buffer -/

section

variable {Value : Type}

theorem insertOrdered_perm {key : Nat} {value : Value} {entries : List (Nat × Value)}
    (hfresh : key ∉ entries.map Prod.fst) :
    (insertOrdered key value entries).Perm ((key, value) :: entries) := by
  induction entries with
  | nil => exact List.Perm.refl _
  | cons entry rest ih =>
    rw [List.map_cons, List.mem_cons, not_or] at hfresh
    rw [insertOrdered]
    split
    · exact List.Perm.refl _
    · rw [if_neg hfresh.1]
      exact ((ih hfresh.2).cons entry).trans (List.Perm.swap _ _ _)

theorem insertOrdered_pairwise {key : Nat} {value : Value} {entries : List (Nat × Value)}
    (hfresh : key ∉ entries.map Prod.fst)
    (hsorted : entries.Pairwise fun left right => left.1 < right.1) :
    (insertOrdered key value entries).Pairwise fun left right => left.1 < right.1 := by
  induction entries with
  | nil => exact List.pairwise_singleton _ _
  | cons entry rest ih =>
    obtain ⟨hfirst, hrest⟩ := List.pairwise_cons.mp hsorted
    rw [List.map_cons, List.mem_cons, not_or] at hfresh
    rw [insertOrdered]
    split
    · rename_i hless
      refine List.pairwise_cons.mpr ⟨fun other hother => ?_, hsorted⟩
      rcases List.mem_cons.mp hother with rfl | hother
      · exact hless
      · exact lt_trans hless (hfirst other hother)
    · rw [if_neg hfresh.1]
      refine List.pairwise_cons.mpr ⟨fun other hother => ?_, ih hfresh.2 hrest⟩
      rcases List.mem_cons.mp ((insertOrdered_perm hfresh.2).mem_iff.mp hother) with rfl | hother
      · omega
      · exact hfirst other hother

/-- Entries with distinct keys come out in the order of their keys, whatever the order in which
they came in. -/
theorem foldl_insertOrdered {entries arriving : List (Nat × Value)}
    (hsorted : entries.Pairwise fun left right => left.1 < right.1) (hperm : arriving.Perm entries)
      :
    arriving.foldl (fun pending entry => insertOrdered entry.1 entry.2 pending) [] = entries := by
  -- generalised over what has arrived already
  have hfold : ∀ (arriving pending : List (Nat × Value)),
      ((pending ++ arriving).map Prod.fst).Nodup →
      pending.Pairwise (fun left right => left.1 < right.1) →
      (arriving.foldl (fun pending entry => insertOrdered entry.1 entry.2 pending) pending).Perm
          (pending ++ arriving) ∧
        (arriving.foldl (fun pending entry => insertOrdered entry.1 entry.2 pending)
          pending).Pairwise fun left right => left.1 < right.1 := by
    intro arriving
    induction arriving with
    | nil => exact fun pending _ hpending => ⟨by simp, hpending⟩
    | cons entry rest ih =>
      intro pending hnodup hpending
      have hfresh : entry.1 ∉ pending.map Prod.fst := by
        rw [List.map_append, List.nodup_append] at hnodup
        exact fun hmem => hnodup.2.2 _ hmem _ (by simp) rfl
      have hinsert := @insertOrdered_perm _ entry.1 entry.2 pending hfresh
      have hnext := (hinsert.append_right rest).trans List.perm_middle.symm
      obtain ⟨hpermRest, hsortedRest⟩ := ih _ ((hnext.map Prod.fst).nodup_iff.mpr hnodup)
        (insertOrdered_pairwise hfresh hpending)
      exact ⟨hpermRest.trans hnext, hsortedRest⟩
  have hnodup : (arriving.map Prod.fst).Nodup := by
    rw [(hperm.map Prod.fst).nodup_iff]
    exact List.pairwise_map.mpr (hsorted.imp fun hless => ne_of_lt hless)
  obtain ⟨hresult, hresultSorted⟩ := hfold arriving [] hnodup List.Pairwise.nil
  refine List.Perm.eq_of_pairwise (fun left right _ _ hleft hright => ?_) hresultSorted hsorted
    (hresult.trans hperm)
  exact absurd hleft (lt_asymm hright)

end

/-- A chunk with what was fetched for it. -/
def fetched (blocks : BlockFetchAssignment Peer → List Item)
    (assignment : BlockFetchAssignment Peer) : FetchedRange Item :=
  ⟨assignment.lower, assignment.upper, blocks assignment⟩

/-- The chunk under its key. -/
def keyed (blocks : BlockFetchAssignment Peer → List Item)
    (assignment : BlockFetchAssignment Peer) : Nat × FetchedRange Item :=
  (ReorderBuffer.key assignment.lower, fetched blocks assignment)

variable {plan : List (BlockFetchAssignment Peer)}

variable {blocks : BlockFetchAssignment Peer → List Item}
  {fetchOne : BlockFetchAssignment Peer → Except Error (List Item)}

variable {completion : List (BlockFetchAssignment Peer)}

theorem collect_of_ok
    (hok : ∀ assignment ∈ completion, fetchOne assignment = .ok (blocks assignment))
    (buffer : ReorderBuffer Item) :
    collect fetchOne completion buffer = .ok { buffer with
      pending := (completion.map (keyed blocks)).foldl
        (fun pending entry => insertOrdered entry.1 entry.2 pending) buffer.pending } := by
  induction completion generalizing buffer with
  | nil => rfl
  | cons assignment rest ih =>
    rw [collect, hok assignment List.mem_cons_self]
    exact ih (fun other hother => hok other (List.mem_cons_of_mem _ hother)) _

theorem Ascending.keys (hascending : Ascending plan) (blocks : BlockFetchAssignment Peer → List Item) :
    (plan.map (keyed blocks)).Pairwise fun left right => left.1 < right.1 := by
  rw [List.pairwise_map]
  refine hascending.disjoint.imp_of_mem fun hleft _ hless => ?_
  obtain ⟨low, lowHash, high, highHash, hlower, hupper, hle⟩ := hascending.ranges _ hleft
  rw [hupper] at hless
  change ReorderBuffer.key _ < _
  rw [hlower]
  exact lt_of_le_of_lt hle hless

theorem releasable_all (hascending : Ascending plan) (blocks : BlockFetchAssignment Peer → List
  Item)
    {slot : SlotNo} {hash : HeaderHash}
    (hhead : ∀ first ∈ plan.head?, slot.toNat < ReorderBuffer.key first.lower) :
    ReorderBuffer.releasable (.blockPoint slot hash) (plan.map (keyed blocks)) =
      plan.map (fetched blocks) := by
  induction plan generalizing slot hash with
  | nil => rfl
  | cons first rest ih =>
    obtain ⟨hdisjoint, hrest⟩ := List.pairwise_cons.mp hascending.disjoint
    obtain ⟨_, _, high, highHash, -, hupper, -⟩ := hascending.ranges first List.mem_cons_self
    have hfirst := not_le.mpr (hhead first rfl)
    rw [List.map_cons, List.map_cons, keyed, ReorderBuffer.releasable, if_neg hfirst]
    have htail : Ascending rest :=
      ⟨fun other hother => hascending.ranges other (List.mem_cons_of_mem _ hother), hrest⟩
    change fetched blocks first :: ReorderBuffer.releasable first.upper _ = _
    rw [hupper, ih htail]
    intro next hnext
    have hless := hdisjoint next (List.mem_of_head? hnext)
    rwa [hupper] at hless

/-! ## What a plan delivers -/

/-- With several chunks, what comes out is what the buffer releases of the plan's own order. -/
theorem execute_of_ok {first second : BlockFetchAssignment Peer}
    {rest : List (BlockFetchAssignment Peer)} {slot : SlotNo} (hash : HeaderHash)
    (hascending : Ascending (first :: second :: rest))
    (hok : ∀ assignment ∈ first :: second :: rest, fetchOne assignment = .ok (blocks assignment))
    (hcompletion : completion.Perm (first :: second :: rest)) :
    executeMultiPeerBlockfetchPlan (first :: second :: rest) (.blockPoint slot hash) fetchOne
        completion =
      .ok ((ReorderBuffer.releasable (headSeed (.blockPoint slot hash))
        ((first :: second :: rest).map (keyed blocks))).map FetchedRange.blocks).flatten := by
  have hcollected := collect_of_ok (fun assignment hmem =>
    hok assignment (hcompletion.mem_iff.mp hmem)) (ReorderBuffer.new (headSeed (.blockPoint slot
      hash)))
  have hpending := foldl_insertOrdered (hascending.keys blocks) (hcompletion.map _)
  unfold executeMultiPeerBlockfetchPlan
  rw [if_neg nofun, hcollected, ← hpending]
  rfl

/-- **What a plan delivers.**  If all fetches succeed, the blocks of all chunks come out in the
plan's order, whatever the order in which the tasks end, if and only if the plan has one chunk only
or starts above slot 0 (or there is nothing to deliver). -/
theorem plan_delivers_iff (plan completion : List (BlockFetchAssignment Peer)) (slot : SlotNo)
    (hash : HeaderHash) (fetchOne : BlockFetchAssignment Peer → Except Error (List Item))
    (blocks : BlockFetchAssignment Peer → List Item) (hsome : plan ≠ []) (hascending : Ascending
      plan)
    (hstart : StartsAt plan slot)
    (hok : ∀ assignment ∈ plan, fetchOne assignment = .ok (blocks assignment))
    (hcompletion : completion.Perm plan) :
    executeMultiPeerBlockfetchPlan plan (.blockPoint slot hash) fetchOne completion =
        .ok (plan.map blocks).flatten ↔
      plan.length = 1 ∨ slot ≠ 0 ∨ (plan.map blocks).flatten = [] := by
  match plan with
  | [] => exact absurd rfl hsome
  | [assignment] =>
    refine iff_of_true ?_ (.inl rfl)
    simp [executeMultiPeerBlockfetchPlan, hok assignment List.mem_cons_self, Except.mapError]
  | first :: second :: rest =>
    rw [execute_of_ok hash hascending hok hcompletion, Except.ok.injEq]
    have hfirst := hstart first rfl
    have hmany : (first :: second :: rest).length ≠ 1 := by simp
    by_cases hzero : slot = 0
    · -- the head is at slot 0 like the first chunk, so nothing is released
      have hnone : ReorderBuffer.releasable (headSeed (.blockPoint slot hash))
          ((first :: second :: rest).map (keyed blocks)) = [] := by
        rw [headSeed, if_pos hzero, List.map_cons, keyed, ReorderBuffer.releasable, hfirst, hzero]
        exact if_pos (le_refl _)
      rw [hnone]
      constructor
      · exact fun hempty => .inr (.inr hempty.symm)
      · rintro (hone | hnonzero | hempty)
        · exact absurd hone hmany
        · exact absurd hzero hnonzero
        · exact hempty.symm
    · refine iff_of_true ?_ (.inr (.inl hzero))
      have hpred : (slot - 1).toNat < slot.toNat := by
        have hpos : 0 < slot.toNat := by
          rcases Nat.eq_zero_or_pos slot.toNat with hnat | hpos
          · exact absurd (UInt64.toNat_inj.mp hnat) hzero
          · exact hpos
        have hone : (1 : UInt64).toNat = 1 := rfl
        rw [UInt64.toNat_sub_of_le _ _ (UInt64.le_iff_toNat_le.mpr (by omega)), hone]
        omega
      have hall : ReorderBuffer.releasable (.blockPoint (slot - 1) hash)
          ((first :: second :: rest).map (keyed blocks)) =
            (first :: second :: rest).map (fetched blocks) := by
        refine releasable_all hascending blocks fun other hother => ?_
        cases hother
        rw [hfirst]
        exact hpred
      rw [headSeed, if_neg hzero, hall, List.map_map]
      rfl

def twoChunks (slot : SlotNo) : List (BlockFetchAssignment Nat) :=
  [⟨1, .blockPoint slot 1, .blockPoint (slot + 9) 2⟩,
    ⟨2, .blockPoint (slot + 10) 3, .blockPoint (slot + 19) 4⟩]

/-- Each peer returns one block, its own number. -/
def chunkBlock (assignment : BlockFetchAssignment Nat) : List Nat := [assignment.peer]

/-- From slot 5, with the second task ending first. -/
theorem twoChunks_delivered :
    executeMultiPeerBlockfetchPlan (twoChunks 5) (.blockPoint 5 1)
        (fun assignment => (.ok (chunkBlock assignment) : Except Unit (List Nat)))
        (twoChunks 5).reverse = .ok ((twoChunks 5).map chunkBlock).flatten :=
  (plan_delivers_iff (twoChunks 5) (twoChunks 5).reverse 5 1 _ chunkBlock (by decide)
    ⟨by simp [twoChunks, IsRange], by simp [twoChunks, ReorderBuffer.key]⟩
    (by intro first hfirst; cases hfirst; rfl) (fun _ _ => rfl) (List.reverse_perm _)).mpr
    (.inr (.inl (by decide)))

/-- From slot 0 both fetches succeed and nothing is delivered. -/
theorem twoChunks_at_zero_dropped :
    Ascending (twoChunks 0) ∧ StartsAt (twoChunks 0) 0 ∧
    executeMultiPeerBlockfetchPlan (twoChunks 0) (.blockPoint 0 1)
        (fun assignment => (.ok (chunkBlock assignment) : Except Unit (List Nat))) (twoChunks 0) =
      .ok [] ∧
    ((twoChunks 0).map chunkBlock).flatten = [1, 2] :=
  ⟨⟨by simp [twoChunks, IsRange], by simp [twoChunks, ReorderBuffer.key]⟩,
    by intro first hfirst; cases hfirst; rfl, rfl, rfl⟩

end Yggdrasil.Node.Sync
