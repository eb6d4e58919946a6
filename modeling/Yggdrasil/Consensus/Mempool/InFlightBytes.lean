import Yggdrasil.Consensus.Mempool.TxState
import Yggdrasil.Library.FallibleLoop
import Yggdrasil.Library.Runs

/-!
# In-flight byte accounting

`TxState` counts the advertised bytes it is waiting for twice, per peer and in total, with
saturating arithmetic in six operations.  Both counts are compared with what they stand for: the
sizes recorded for the transactions in flight (`recordedBytes`).  They are exact as long as all
recorded sizes together fit in a 64-bit word, and no longer (`inflight_bytes_exact_iff`).
-/

namespace Yggdrasil.Consensus.Mempool

open Ledger Library KeyedMap

/-! ## One peer -/

namespace PeerTxState

/-- The sizes recorded for the transactions in flight. -/
def recordedBytes (entry : PeerTxState) : Nat :=
  ∑ txid ∈ entry.inFlight, amountAt UInt32.toNat entry.inFlightSizes txid

/-- Only transactions in flight have a size. -/
def Sized (entry : PeerTxState) : Prop :=
  ∀ txid, txid ∉ entry.inFlight → entry.inFlightSizes.lookup txid = none

/-- The bytes that a released size stands for. -/
def releasedBytes (entry : PeerTxState) (txid : TxId) : Nat :=
  (entry.releasedSize txid).elim 0 UInt32.toNat

theorem sized_new : new.Sized := fun _ _ => rfl

theorem toNat_giveBack (bytes : UInt64) (released : Option SizeInBytes) :
    (giveBack bytes released).toNat = bytes.toNat - released.elim 0 UInt32.toNat := by
  cases released with
  | none => rfl
  | some size =>
    rw [giveBack, toNat_saturatingSub]
    rfl

variable (entry : PeerTxState)

theorem recordedBytes_start {txid : TxId} (hnew : txid ∉ entry.inFlight) (size : SizeInBytes) :
    (entry.start txid size).recordedBytes = entry.recordedBytes + size.toNat := by
  have hothers : ∑ other ∈ entry.inFlight,
      amountAt UInt32.toNat (entry.inFlightSizes.insert txid size) other =
        entry.recordedBytes := by
    refine Finset.sum_congr rfl fun other hother => ?_
    have hne : other ≠ txid := fun hsame => hnew (hsame ▸ hother)
    rw [amountAt, AList.lookup_insert_ne hne, amountAt]
  rw [recordedBytes, start, Finset.sum_insert hnew, hothers,
    amountAt_of_lookup (AList.lookup_insert _), add_comm]

theorem sized_start {entry : PeerTxState} (hsized : entry.Sized) (txid : TxId) (size : SizeInBytes) :
    (entry.start txid size).Sized := by
  intro other hother
  obtain ⟨hne, hold⟩ : other ≠ txid ∧ other ∉ entry.inFlight := by
    simpa [start, not_or] using hother
  exact (AList.lookup_insert_ne hne).trans (hsized other hold)

theorem recordedBytes_finish (txid : TxId) :
    (entry.finish txid).recordedBytes + entry.releasedBytes txid = entry.recordedBytes := by
  by_cases hmem : txid ∈ entry.inFlight
  · have hsplit := Finset.sum_erase_add entry.inFlight
      (amountAt UInt32.toNat entry.inFlightSizes) hmem
    have hreleased : entry.releasedSize txid = entry.inFlightSizes.lookup txid := if_pos hmem
    rw [recordedBytes, releasedBytes, finish, hreleased, recordedBytes, ← hsplit]
    cases hlookup : entry.inFlightSizes.lookup txid with
    | none => simp [amountAt, hlookup]
    | some size =>
      have hsize : amountAt UInt32.toNat entry.inFlightSizes txid = size.toNat :=
        amountAt_of_lookup hlookup
      rw [hsize]
      refine congrArg (· + _) (Finset.sum_congr rfl fun other hother => ?_)
      exact amountAt_erase _ _ (Finset.ne_of_mem_erase hother)
  · have hreleased : entry.releasedSize txid = none := if_neg hmem
    rw [releasedBytes, finish, hreleased, Finset.erase_eq_of_notMem
      hmem]
    rfl

theorem sized_finish {entry : PeerTxState} (hsized : entry.Sized) (txid : TxId) :
    (entry.finish txid).Sized := by
  intro other hother
  rw [finish]
  by_cases hsame : other = txid
  · subst hsame
    cases hreleased : entry.releasedSize other with
    | some size => exact AList.lookup_erase _ _
    | none =>
      -- nothing was released: the transaction was not in flight, or had no size
      by_cases hmem : other ∈ entry.inFlight
      · rwa [releasedSize, if_pos hmem] at hreleased
      · exact hsized other hmem
  · have hnone := hsized other fun hmem => hother (Finset.mem_erase.mpr ⟨hsame, hmem⟩)
    cases entry.releasedSize txid with
    | some size => exact (AList.lookup_erase_ne hsame).trans hnone
    | none => exact hnone

end PeerTxState

/-! ## The loops over one peer's transactions -/

namespace FetchProgress

variable {others : Nat} {progress : FetchProgress}

/-- The peer's count is what is recorded, and the total counts it on top of the other peers. -/
structure Exact (others : Nat) (progress : FetchProgress) : Prop where
  bytes : progress.entry.inflightBytes.toNat = progress.entry.recordedBytes
  total : progress.inflightBytesTotal.toNat = others + progress.entry.recordedBytes

/-- The counts are exact, and only transactions in flight have a size. -/
def Counted (others : Nat) (progress : FetchProgress) : Prop :=
  progress.Exact others ∧ progress.entry.Sized

theorem counted_start (hcounted : progress.Counted others) (sized : TxId × SizeInBytes)
    (hfits : others + (progress.start sized).entry.recordedBytes < 2 ^ 64) :
    (progress.start sized).Counted others := by
  obtain ⟨hexact, hsized⟩ := hcounted
  unfold start at hfits ⊢
  split
  · exact ⟨hexact, hsized⟩
  · rename_i hnew
    rw [if_neg hnew, PeerTxState.recordedBytes_start _ hnew] at hfits
    have hsize : sized.2.toUInt64.toNat = sized.2.toNat := UInt32.toNat_toUInt64 _
    refine ⟨⟨?_, ?_⟩, PeerTxState.sized_start hsized _ _⟩
    · rw [PeerTxState.recordedBytes_start _ hnew, PeerTxState.start, toNat_saturatingAdd,
        hexact.bytes]
      omega
    · rw [PeerTxState.recordedBytes_start _ hnew, toNat_saturatingAdd, hexact.total]
      omega

theorem recordedBytes_le_start (progress : FetchProgress) (sized : TxId × SizeInBytes) :
    progress.entry.recordedBytes ≤ (progress.start sized).entry.recordedBytes := by
  unfold start
  split
  · exact le_refl _
  · rename_i hnew
    rw [PeerTxState.recordedBytes_start _ hnew]
    exact Nat.le_add_right _ _

variable (sizedTxids : List (TxId × SizeInBytes))

theorem recordedBytes_le_foldl_start (progress : FetchProgress) :
    progress.entry.recordedBytes ≤ (sizedTxids.foldl start progress).entry.recordedBytes := by
  induction sizedTxids generalizing progress with
  | nil => exact le_refl _
  | cons sized rest ih => exact le_trans (recordedBytes_le_start progress sized) (ih _)

/-- The sizes are added exactly if the sum at the end of the loop is a word. -/
theorem counted_foldl_start (hcounted : progress.Counted others)
    (hfits : others + (sizedTxids.foldl start progress).entry.recordedBytes < 2 ^ 64) :
    (sizedTxids.foldl start progress).Counted others := by
  induction sizedTxids generalizing progress with
  | nil => exact hcounted
  | cons sized rest ih =>
    refine ih (counted_start hcounted sized ?_) hfits
    have hgrows := recordedBytes_le_foldl_start rest (progress.start sized)
    rw [List.foldl_cons] at hfits
    omega

theorem counted_finish (progress : FetchProgress) (hcounted : progress.Counted others)
    (txid : TxId) : (progress.finish txid).Counted others := by
  have hrecorded := progress.entry.recordedBytes_finish txid
  obtain ⟨⟨hbytes, htotal⟩, hsized⟩ := hcounted
  rw [PeerTxState.releasedBytes] at hrecorded
  refine ⟨⟨?_, ?_⟩, PeerTxState.sized_finish hsized txid⟩
  · change (PeerTxState.giveBack _ _).toNat = (progress.entry.finish txid).recordedBytes
    rw [PeerTxState.toNat_giveBack]
    omega
  · change (PeerTxState.giveBack _ _).toNat = others + (progress.entry.finish txid).recordedBytes
    rw [PeerTxState.toNat_giveBack]
    omega

theorem counted_startUnsized (progress : FetchProgress) (hcounted : progress.Counted others)
    (txid : TxId) : (progress.startUnsized txid).Counted others := by
  obtain ⟨hexact, hsized⟩ := hcounted
  have hrecorded : (progress.startUnsized txid).entry.recordedBytes =
      progress.entry.recordedBytes := by
    unfold startUnsized PeerTxState.recordedBytes
    by_cases hmem : txid ∈ progress.entry.inFlight
    · rw [Finset.insert_eq_of_mem hmem]
    · rw [Finset.sum_insert hmem, amountAt, hsized txid hmem]
      simp
  exact ⟨⟨hexact.bytes.trans hrecorded.symm, hexact.total.trans (by rw [hrecorded])⟩,
    fun other hother => hsized other fun hmem => hother (Finset.mem_insert_of_mem hmem)⟩

end FetchProgress

/-! ## The whole state -/

namespace TxState

variable {Peer : Type} [DecidableEq Peer] {state : TxState Peer}

/-- All recorded sizes together. -/
def recordedTotal (state : TxState Peer) : Nat :=
  total PeerTxState.recordedBytes state.peers

/-- Both byte counts are what they stand for. -/
structure BytesExact (state : TxState Peer) : Prop where
  total : state.inflightBytesTotal.toNat =
    total (fun entry => entry.inflightBytes.toNat) state.peers
  peer : ∀ peer entry, state.peers.lookup peer = some entry →
    entry.inflightBytes.toNat = entry.recordedBytes

/-- Only transactions in flight have a size, for every peer. -/
def AllSized (state : TxState Peer) : Prop :=
  ∀ peer entry, state.peers.lookup peer = some entry → entry.Sized

theorem BytesExact.total_eq_recordedTotal (hexact : state.BytesExact) :
    state.inflightBytesTotal.toNat = state.recordedTotal :=
  hexact.total.trans (total_congr hexact.peer)

theorem BytesExact.recordedTotal_lt (hexact : state.BytesExact) : state.recordedTotal < 2 ^ 64 := by
  rw [← hexact.total_eq_recordedTotal]
  exact state.inflightBytesTotal.toNat_lt

/-- What is recorded for the other peers. -/
def othersRecorded (state : TxState Peer) (peer : Peer) : Nat :=
  total PeerTxState.recordedBytes (state.peers.erase peer)

theorem total_insert_eq (measure : PeerTxState → Nat) (state : TxState Peer) (peer : Peer)
    (entry : PeerTxState) :
    total measure (state.peers.insert peer entry) =
      total measure (state.peers.erase peer) + measure entry := by
  have hinsert := total_insert measure state.peers peer entry
  have herase := total_erase measure state.peers peer
  omega

/-- Both byte counts are exact, and only transactions in flight have a size. -/
def Counted (state : TxState Peer) : Prop := state.BytesExact ∧ state.AllSized

/-- A peer's entry as the loops see it; a peer that is not tracked counts for nothing. -/
theorem Counted.progress (hcounted : state.Counted) (peer : Peer) :
    (state.progress ((state.peers.lookup peer).getD PeerTxState.new)).Counted
      (state.othersRecorded peer) := by
  have hsplit := total_erase PeerTxState.recordedBytes state.peers peer
  have htotal := hcounted.1.total_eq_recordedTotal
  cases hlookup : state.peers.lookup peer with
  | none =>
    rw [amountAt, hlookup] at hsplit
    exact ⟨⟨rfl, htotal.trans hsplit.symm⟩, PeerTxState.sized_new⟩
  | some entry =>
    rw [amountAt_of_lookup hlookup] at hsplit
    exact ⟨⟨hcounted.1.peer peer entry hlookup, htotal.trans hsplit.symm⟩,
      hcounted.2 peer entry hlookup⟩

theorem Counted.store (hcounted : state.Counted) (peer : Peer) {progress : FetchProgress}
    (hprogress : progress.Counted (state.othersRecorded peer)) :
    (state.store peer progress).Counted := by
  obtain ⟨⟨hbytes, htotal⟩, hsized⟩ := hprogress
  -- the counts of the other peers are what is recorded for them
  have hothers : total (fun entry => entry.inflightBytes.toNat) (state.peers.erase peer) =
      state.othersRecorded peer :=
    total_congr (forall_lookup_erase hcounted.1.peer peer)
  refine ⟨⟨?_, forall_lookup_insert hcounted.1.peer hbytes⟩,
    forall_lookup_insert hcounted.2 hsized⟩
  change progress.inflightBytesTotal.toNat = total _ (state.peers.insert peer progress.entry)
  rw [total_insert_eq, hothers, htotal, hbytes]

theorem recordedTotal_store (state : TxState Peer) (peer : Peer) (progress : FetchProgress) :
    (state.store peer progress).recordedTotal =
      state.othersRecorded peer + progress.entry.recordedBytes :=
  total_insert_eq _ state peer progress.entry

/-! ### Operations -/

section

variable (hcounted : state.Counted)
include hcounted

variable (peer : Peer)

theorem Counted.registerPeer : (state.registerPeer peer).Counted := by
  have hprogress := hcounted.progress peer
  unfold TxState.registerPeer
  split
  · exact hcounted
  · rename_i hlookup
    rw [hlookup] at hprogress
    exact hcounted.store peer hprogress

variable (txids : List TxId)

theorem Counted.filterAdvertised :
    (state.filterAdvertised peer txids).2.Counted := by
  -- the entry's counters do not change
  have hfiltered : ∀ unacknowledged, (state.progress
      { (state.peers.lookup peer).getD PeerTxState.new with unacknowledged }).Counted
      (state.othersRecorded peer) := fun _ =>
    have hprogress := hcounted.progress peer
    ⟨⟨hprogress.1.bytes, hprogress.1.total⟩, hprogress.2⟩
  exact hcounted.store peer (hfiltered _)

theorem Counted.unregisterPeer : (state.unregisterPeer peer).Counted := by
  obtain ⟨hexact, hsized⟩ := hcounted
  unfold TxState.unregisterPeer
  split
  · rename_i entry hlookup
    have hsplit := total_erase (fun entry => entry.inflightBytes.toNat)
      state.peers peer
    rw [amountAt_of_lookup hlookup, ← hexact.total] at hsplit
    refine ⟨⟨?_, forall_lookup_erase hexact.peer peer⟩,
      forall_lookup_erase hsized peer⟩
    dsimp only
    rw [toNat_saturatingSub]
    omega
  · exact ⟨hexact, hsized⟩

theorem Counted.markInFlight : (state.markInFlight peer txids).Counted := by
  have hprogress := hcounted.progress peer
  unfold TxState.markInFlight
  split
  · rename_i entry hlookup
    rw [hlookup] at hprogress
    exact hcounted.store peer (List.foldlRecOn txids _ hprogress fun progress hloop txid _ =>
      progress.counted_startUnsized hloop txid)
  · exact hcounted

theorem Counted.markInFlightSized (sizedTxids : List (TxId × SizeInBytes))
    (hfits : (state.markInFlightSized peer sizedTxids).recordedTotal < 2 ^ 64) :
    (state.markInFlightSized peer sizedTxids).Counted := by
  have hprogress := hcounted.progress peer
  unfold TxState.markInFlightSized at hfits ⊢
  split
  · rename_i entry hlookup
    rw [hlookup] at hfits hprogress
    rw [recordedTotal_store] at hfits
    exact hcounted.store peer (FetchProgress.counted_foldl_start _ hprogress hfits)
  · exact hcounted

theorem Counted.releaseInFlight :
    (state.releaseInFlight peer txids).Counted := by
  have hprogress := hcounted.progress peer
  unfold TxState.releaseInFlight
  split
  · rename_i entry hlookup
    rw [hlookup] at hprogress
    exact hcounted.store peer (List.foldlRecOn txids _ hprogress fun progress hloop txid _ =>
      progress.counted_finish hloop txid)
  · exact hcounted

end

omit [DecidableEq Peer] in
/-- What is known has nothing to do with what is in flight. -/
theorem insertKnown_frame (state : TxState Peer) (txid : TxId) :
    (state.insertKnown txid).peers = state.peers ∧
      (state.insertKnown txid).inflightBytesTotal = state.inflightBytesTotal := by
  unfold insertKnown
  split <;> exact ⟨rfl, rfl⟩

omit [DecidableEq Peer] in
theorem foldl_frame {step : TxState Peer → TxId → TxState Peer}
    (hstep : ∀ state txid, (step state txid).peers = state.peers ∧
      (step state txid).inflightBytesTotal = state.inflightBytesTotal) (txids : List TxId)
    (state : TxState Peer) :
    (txids.foldl step state).peers = state.peers ∧
      (txids.foldl step state).inflightBytesTotal = state.inflightBytesTotal :=
  ⟨foldl_keeps (·.peers) (fun state txid => (hstep state txid).1) txids state,
    foldl_keeps (·.inflightBytesTotal) (fun state txid => (hstep state txid).2) txids state⟩

theorem Counted.of_frame (hcounted : state.Counted) {next : TxState Peer}
    (hframe : next.peers = state.peers ∧ next.inflightBytesTotal = state.inflightBytesTotal) :
    next.Counted := by
  obtain ⟨hexact, hsized⟩ := hcounted
  rw [Counted, AllSized, hframe.1]
  exact ⟨⟨by rw [hframe.1, hframe.2]; exact hexact.total, hframe.1 ▸ hexact.peer⟩, hsized⟩

variable (txids : List TxId)

/-- The cleanup of one entry, as the loop of the other operations does it. -/
theorem giveBackAll_eq (total : UInt64) (entry : PeerTxState) (globalInFlight : Finset TxId) :
    giveBackAll txids total entry = (txids.foldl FetchProgress.finish
      { entry, globalInFlight, inflightBytesTotal := total }).inflightBytesTotal := by
  induction txids generalizing total entry globalInFlight with
  | nil => rfl
  | cons txid rest ih => exact ih _ _ _

theorem giveBackAll_counted {others : Nat} {total : UInt64} {entry : PeerTxState}
    (hbytes : entry.inflightBytes.toNat = entry.recordedBytes)
    (htotal : total.toNat = others + entry.recordedBytes) (hsized : entry.Sized) :
    FetchProgress.Counted others ⟨txids.foldl PeerTxState.finish entry, ∅,
      giveBackAll txids total entry⟩ := by
  have hstart : FetchProgress.Counted others ⟨entry, ∅, total⟩ := ⟨⟨hbytes, htotal⟩, hsized⟩
  have hloop := List.foldlRecOn txids FetchProgress.finish hstart fun progress hcounted txid _ =>
    progress.counted_finish hcounted txid
  have hentry := (foldl_progress_finish txids ⟨entry, ∅, total⟩).1
  rw [giveBackAll_eq]
  exact ⟨⟨hentry ▸ hloop.1.bytes, hentry ▸ hloop.1.total⟩, hentry ▸ hloop.2⟩

omit [DecidableEq Peer] in
theorem confirmOne_frame (state : TxState Peer) (txid : TxId) :
    (state.confirmOne txid).peers = state.peers ∧
      (state.confirmOne txid).inflightBytesTotal = state.inflightBytesTotal :=
  insertKnown_frame _ _

omit [DecidableEq Peer] in
/-- The loop over all entries takes from the total what the entries lose. -/
theorem foldl_giveBackAll_exact (entries : List (Sigma fun _ : Peer => PeerTxState)) {others : Nat}
    {total : UInt64}
    (hentries : ∀ entry ∈ entries,
      entry.2.inflightBytes.toNat = entry.2.recordedBytes ∧ entry.2.Sized)
    (htotal : total.toNat = others + (entries.map fun entry => entry.2.recordedBytes).sum) :
    (entries.foldl (fun total entry => giveBackAll txids total entry.2) total).toNat =
      others + (entries.map fun entry =>
        (txids.foldl PeerTxState.finish entry.2).recordedBytes).sum := by
  induction entries generalizing others total with
  | nil => exact htotal
  | cons entry rest ih =>
    rw [List.map_cons, List.sum_cons] at htotal
    have hfirst : total.toNat = others + (rest.map fun entry => entry.2.recordedBytes).sum +
        entry.2.recordedBytes := by omega
    obtain ⟨hbytes, hsized⟩ := hentries entry List.mem_cons_self
    have hgiven := (giveBackAll_counted txids hbytes hfirst hsized).1.total
    dsimp only at hgiven
    have hrest : (giveBackAll txids total entry.2).toNat =
        others + (txids.foldl PeerTxState.finish entry.2).recordedBytes +
          (rest.map fun entry => entry.2.recordedBytes).sum := by omega
    rw [List.foldl_cons, List.map_cons, List.sum_cons,
      ih (fun other hother => hentries other (List.mem_cons_of_mem _ hother)) hrest, add_assoc]

theorem Counted.markConfirmed (hcounted : state.Counted) (txids : List TxId) :
    (state.markConfirmed txids).Counted := by
  have hconfirmed := hcounted.of_frame (foldl_frame confirmOne_frame txids state)
  unfold TxState.markConfirmed
  obtain ⟨confirmed, hsame⟩ : ∃ confirmed, confirmed = txids.foldl confirmOne state := ⟨_, rfl⟩
  rw [← hsame] at hconfirmed ⊢
  obtain ⟨hexact, hsized⟩ := hconfirmed
  have hfinished : ∀ peer entry, confirmed.peers.lookup peer = some entry →
      FetchProgress.Counted 0 ⟨txids.foldl PeerTxState.finish entry, ∅, _⟩ :=
    fun peer entry hlookup =>
      have hbytes := hexact.peer peer entry hlookup
      giveBackAll_counted txids hbytes (hbytes.trans (zero_add _).symm)
        (hsized peer entry hlookup)
  have hmapped : ∀ peer entry,
      (mapValues (fun entry => txids.foldl PeerTxState.finish entry)
        confirmed.peers).lookup peer = some entry →
      entry.inflightBytes.toNat = entry.recordedBytes ∧ entry.Sized := by
    intro peer entry hlookup
    rw [lookup_mapValues] at hlookup
    obtain ⟨before, hbefore, rfl⟩ := Option.map_eq_some_iff.mp hlookup
    have hentry := hfinished peer before hbefore
    exact ⟨hentry.1.bytes, hentry.2⟩
  refine ⟨⟨?_, fun peer entry hlookup => (hmapped peer entry hlookup).1⟩,
    fun peer entry hlookup => (hmapped peer entry hlookup).2⟩
  rw [foldl_giveBackAll_exact txids confirmed.peers.entries (fun entry hentry =>
      have hlookup := AList.mem_lookup_iff.mpr hentry
      ⟨hexact.peer entry.1 entry.2 hlookup, hsized entry.1 entry.2 hlookup⟩)
    (hexact.total_eq_recordedTotal.trans (zero_add _).symm), zero_add,
    total_mapValues]
  refine congrArg List.sum (List.map_congr_left fun entry hentry => ?_)
  exact (hfinished entry.1 entry.2 (AList.mem_lookup_iff.mpr hentry)).1.bytes.symm

/-! ### What is known -/

/-- The set and its queue hold the same ids, at most as many as fit. -/
structure KnownExact (capacity : Nat) (state : TxState Peer) : Prop where
  knownCapacity : state.knownCapacity = capacity
  same : state.known = state.knownOrder.toFinset
  distinct : state.knownOrder.Nodup
  bounded : state.known.card ≤ capacity

omit [DecidableEq Peer] in
theorem evictKnown_spec (capacity : Nat) {order : List TxId} (hnodup : order.Nodup) :
    ∃ kept, evictKnown capacity order.toFinset order = (kept.toFinset, kept) ∧ kept.Nodup ∧
      kept.length ≤ capacity := by
  induction order with
  | nil => exact ⟨[], rfl, List.nodup_nil, Nat.zero_le _⟩
  | cons old rest ih =>
    obtain ⟨hfresh, hrest⟩ := List.nodup_cons.mp hnodup
    rw [evictKnown]
    split
    · rw [List.toFinset_cons, Finset.erase_insert (by simpa using hfresh)]
      exact ih hrest
    · rename_i hfits
      refine ⟨old :: rest, rfl, hnodup, ?_⟩
      rw [List.toFinset_card_of_nodup hnodup] at hfits
      omega

omit [DecidableEq Peer] in
theorem KnownExact.insertKnown {capacity : Nat} (hknown : state.KnownExact capacity) (txid : TxId) :
    (state.insertKnown txid).KnownExact capacity := by
  unfold TxState.insertKnown
  split
  · exact hknown
  · rename_i hfresh
    rw [hknown.same, List.mem_toFinset] at hfresh
    have hnodup : (state.knownOrder ++ [txid]).Nodup := by
      rw [List.nodup_append]
      refine ⟨hknown.distinct, List.nodup_singleton _, ?_⟩
      intro other hother last hlast hsame
      rw [hsame, List.mem_singleton.mp hlast] at hother
      exact hfresh hother
    have hset : insert txid state.known = (state.knownOrder ++ [txid]).toFinset := by
      rw [hknown.same]
      ext other
      simp
    obtain ⟨kept, hkept, hkeptNodup, hlength⟩ := evictKnown_spec capacity hnodup
    rw [hset, hknown.knownCapacity, hkept]
    exact ⟨rfl, rfl, hkeptNodup,
      (List.toFinset_card_of_nodup hkeptNodup).trans_le hlength⟩

end TxState

/-! ## Runs -/

/-- The operations on the shared state. -/
inductive TxStateOp (Peer : Type) where
  | registerPeer (peer : Peer)
  | unregisterPeer (peer : Peer)
  | filterAdvertised (peer : Peer) (txids : List TxId)
  | markInFlight (peer : Peer) (txids : List TxId)
  | markInFlightSized (peer : Peer) (sizedTxids : List (TxId × SizeInBytes))
  | markReceived (peer : Peer) (txids : List TxId)
  | markNotFound (peer : Peer) (txids : List TxId)
  | markConfirmed (txids : List TxId)

variable {Peer : Type} [DecidableEq Peer]

namespace TxState

/-- The state after an operation. -/
def perform (state : TxState Peer) : TxStateOp Peer → TxState Peer
  | .registerPeer peer => state.registerPeer peer
  | .unregisterPeer peer => state.unregisterPeer peer
  | .filterAdvertised peer txids => (state.filterAdvertised peer txids).2
  | .markInFlight peer txids => state.markInFlight peer txids
  | .markInFlightSized peer sizedTxids => state.markInFlightSized peer sizedTxids
  | .markReceived peer txids => state.markReceived peer txids
  | .markNotFound peer txids => state.markNotFound peer txids
  | .markConfirmed txids => state.markConfirmed txids

/-- The byte counts and the set of known ids are what they should be. -/
structure Accounting (capacity : Nat) (state : TxState Peer) : Prop where
  bytes : state.BytesExact
  known : state.KnownExact capacity

variable {state : TxState Peer} {capacity : Nat}

omit [DecidableEq Peer] in
theorem KnownExact.of_same (hknown : state.KnownExact capacity) {next : TxState Peer}
    (hcapacity : next.knownCapacity = state.knownCapacity) (hset : next.known = state.known)
    (horder : next.knownOrder = state.knownOrder) : next.KnownExact capacity :=
  ⟨hcapacity.trans hknown.knownCapacity, by rw [hset, horder]; exact hknown.same,
    horder ▸ hknown.distinct, hset ▸ hknown.bounded⟩

theorem KnownExact.releaseInFlight (hknown : state.KnownExact capacity) (peer : Peer)
    (txids : List TxId) : (state.releaseInFlight peer txids).KnownExact capacity := by
  unfold TxState.releaseInFlight
  split
  · exact hknown.of_same rfl rfl rfl
  · exact hknown

theorem knownExact_perform (hknown : state.KnownExact capacity) (op : TxStateOp Peer) :
    (state.perform op).KnownExact capacity := by
  cases op with
  | registerPeer _ | unregisterPeer _ | markInFlight _ _ | markInFlightSized _ _ =>
    -- the operations that look the peer up change nothing but its entry and the totals
    simp only [perform, registerPeer, unregisterPeer, markInFlight, markInFlightSized]
    split <;> exact hknown.of_same rfl rfl rfl
  | filterAdvertised peer txids => exact hknown.of_same rfl rfl rfl
  | markReceived peer txids =>
    exact List.foldlRecOn txids _ (hknown.releaseInFlight peer txids) fun _ hstate txid _ =>
      hstate.insertKnown txid
  | markNotFound peer txids => exact hknown.releaseInFlight peer txids
  | markConfirmed txids =>
    have hloop : (txids.foldl confirmOne state).KnownExact capacity := by
      refine List.foldlRecOn txids _ hknown fun current hcurrent txid _ => ?_
      have hcleared : KnownExact capacity
          { current with globalInFlight := current.globalInFlight.erase txid } :=
        hcurrent.of_same rfl rfl rfl
      exact hcleared.insertKnown txid
    exact hloop.of_same rfl rfl rfl

/-- An operation keeps the byte counts exact if the sizes fit after it. -/
theorem counted_perform (hcounted : state.Counted) (op : TxStateOp Peer)
    (hfits : (state.perform op).recordedTotal < 2 ^ 64) : (state.perform op).Counted := by
  cases op with
  | registerPeer peer => exact hcounted.registerPeer peer
  | unregisterPeer peer => exact hcounted.unregisterPeer peer
  | filterAdvertised peer txids => exact hcounted.filterAdvertised peer txids
  | markInFlight peer txids => exact hcounted.markInFlight peer txids
  | markInFlightSized peer sizedTxids => exact hcounted.markInFlightSized peer sizedTxids hfits
  | markReceived peer txids =>
    exact (hcounted.releaseInFlight peer txids).of_frame (foldl_frame insertKnown_frame txids _)
  | markNotFound peer txids => exact hcounted.releaseInFlight peer txids
  | markConfirmed txids => exact hcounted.markConfirmed txids

end TxState

/-- The shared state under any sequence of operations. -/
def txStateSystem (capacity : Nat) : TransitionSystem (TxState Peer) (TxStateOp Peer) where
  start := TxState.new capacity
  enabled := fun _ _ => True
  step := TxState.perform

/-- **The byte counts are exact** in every state of a run if and only if the recorded sizes fit in
a word in every state; the set of known ids is right in any case. -/
theorem inflight_bytes_exact_iff (capacity : Nat) (ops : List (TxStateOp Peer)) :
    ((∀ done, done <+: ops → ((txStateSystem capacity).run done).Accounting capacity) ↔
      ∀ done, done <+: ops → ((txStateSystem capacity).run done).recordedTotal < 2 ^ 64) ∧
    ((txStateSystem capacity).run ops).KnownExact capacity := by
  have hknown : ∀ ops, ((txStateSystem capacity).run ops : TxState Peer).KnownExact capacity :=
    fun ops => (txStateSystem capacity).invariant_of_legal (TxState.KnownExact capacity)
      ⟨rfl, rfl, List.nodup_nil, Nat.zero_le _⟩ (fun _ op _ hstate => TxState.knownExact_perform hstate op)
      fun _ _ _ => trivial
  have hcounted : (∀ done, done <+: ops →
      ((txStateSystem capacity).run done : TxState Peer).recordedTotal < 2 ^ 64) →
      ∀ done, done <+: ops → ((txStateSystem capacity).run done : TxState Peer).Counted := by
    intro hfits done
    induction done using List.reverseRecOn with
    | nil => exact fun _ => ⟨⟨rfl, fun _ _ hlookup => nomatch hlookup⟩, fun _ _ hlookup => nomatch hlookup⟩
    | append_singleton earlier op ih =>
      intro hvisited
      have hnext := hfits _ hvisited
      rw [TransitionSystem.run_concat] at hnext ⊢
      exact TxState.counted_perform (ih ((List.prefix_append _ _).trans hvisited)) op hnext
  exact ⟨⟨fun hall done hdone => (hall done hdone).bytes.recordedTotal_lt,
    fun hfits done hdone => ⟨(hcounted hfits done hdone).1, hknown done⟩⟩, hknown ops⟩

/-! ## Sizes that do not fit -/

theorem FetchProgress.recordedBytes_foldl_start (txids : List TxId) (hnodup : txids.Nodup)
    (size : SizeInBytes) {progress : FetchProgress}
    (hnew : ∀ txid ∈ txids, txid ∉ progress.entry.inFlight) :
    ((txids.map fun txid => (txid, size)).foldl start progress).entry.recordedBytes =
      progress.entry.recordedBytes + txids.length * size.toNat := by
  induction txids generalizing progress with
  | nil => simp
  | cons txid rest ih =>
    obtain ⟨hfresh, hrest⟩ := List.nodup_cons.mp hnodup
    have hfirst : txid ∉ progress.entry.inFlight := hnew txid List.mem_cons_self
    have hstart : progress.start (txid, size) =
        { entry := progress.entry.start txid size
          globalInFlight := insert txid progress.globalInFlight
          inflightBytesTotal := saturatingAdd progress.inflightBytesTotal size.toUInt64 } :=
      if_neg hfirst
    rw [List.map_cons, List.foldl_cons, ih hrest, hstart, PeerTxState.recordedBytes_start _ hfirst,
      List.length_cons]
    · ring
    · intro other hother
      rw [hstart]
      simp only [PeerTxState.start, Finset.mem_insert, not_or]
      exact ⟨fun hsame => hfresh (hsame ▸ hother), hnew other (List.mem_cons_of_mem _ hother)⟩

/-- So many transactions of the largest size that their sizes do not fit in a word. -/
def manyTxids : List TxId := (List.range (2 ^ 32 + 2)).map (BitVec.ofNat 256)

theorem nodup_manyTxids : manyTxids.Nodup := by
  refine List.Nodup.map_on (fun first hfirst second hsecond hsame => ?_) List.nodup_range
  rw [List.mem_range] at hfirst hsecond
  have hnat := congrArg BitVec.toNat hsame
  rw [BitVec.toNat_ofNat, BitVec.toNat_ofNat, Nat.mod_eq_of_lt (by omega),
    Nat.mod_eq_of_lt (by omega)] at hnat
  exact hnat

/-- A run that fetches them from one peer. -/
def manyInFlight : List (TxStateOp Unit) :=
  [.registerPeer (), .markInFlightSized () (manyTxids.map fun txid => (txid, 4294967295))]

/-- The byte count saturates and is no longer the sum of the sizes. -/
theorem manyInFlight_not_exact : ¬ ((txStateSystem 16).run manyInFlight).Accounting 16 := by
  intro haccounting
  have hfits := haccounting.bytes.recordedTotal_lt
  have hrun : (txStateSystem 16).run manyInFlight =
      ((TxState.new 16 : TxState Unit).registerPeer ()).store ()
        ((manyTxids.map fun txid => (txid, 4294967295)).foldl FetchProgress.start
          (((TxState.new 16 : TxState Unit).registerPeer ()).progress PeerTxState.new)) := rfl
  rw [hrun, TxState.recordedTotal_store, FetchProgress.recordedBytes_foldl_start manyTxids
    nodup_manyTxids 4294967295 fun _ _ => Finset.notMem_empty _] at hfits
  have hlength : manyTxids.length = 2 ^ 32 + 2 := by simp [manyTxids]
  have hsize : (4294967295 : SizeInBytes).toNat = 4294967295 := rfl
  rw [hsize] at hfits
  omega

end Yggdrasil.Consensus.Mempool
