import Yggdrasil.Ledger.Types
import Yggdrasil.Library.Holdings
import Yggdrasil.Library.KeyedMap
import Yggdrasil.Library.Saturating

/-!
# Cross-peer transaction state

`TxState` of `crates/consensus/src/mempool/tx_state/state.rs`: which transactions are known, which
are being fetched, and from whom.  Hash sets are finite sets and the peer table is an association
list; `Peer` stands for the socket address.  The getters that no modelled function reads are left
out.

`TxState.holdings` reads the state as a table of items held by peers, with `global_in_flight` as
its index; each operation is the table operation of that meaning.
-/

namespace Yggdrasil.Consensus.Mempool

open Ledger Library

/-- Advertised size of a transaction. -/
abbrev SizeInBytes := UInt32

/-- What is tracked for one peer. -/
structure PeerTxState where
  unacknowledged : Finset TxId
  inFlight : Finset TxId
  inFlightSizes : KeyedMap TxId SizeInBytes
  inflightBytes : UInt64

namespace PeerTxState

def new : PeerTxState where
  unacknowledged := ∅
  inFlight := ∅
  inFlightSizes := ∅
  inflightBytes := 0

/-- The size a finished transaction gives back, if it was being fetched with a known size. -/
def releasedSize (peer : PeerTxState) (txid : TxId) : Option SizeInBytes :=
  if txid ∈ peer.inFlight then peer.inFlightSizes.lookup txid else none

/-- Reduce a byte count by a released size. -/
def giveBack (bytes : UInt64) : Option SizeInBytes → UInt64
  | some size => saturatingSub bytes size.toUInt64
  | none => bytes

/-- Forget a finished transaction. -/
def finish (peer : PeerTxState) (txid : TxId) : PeerTxState where
  unacknowledged := peer.unacknowledged.erase txid
  inFlight := peer.inFlight.erase txid
  inFlightSizes := match peer.releasedSize txid with
    | some _ => peer.inFlightSizes.erase txid
    | none => peer.inFlightSizes
  inflightBytes := giveBack peer.inflightBytes (peer.releasedSize txid)

/-- Start fetching a transaction. -/
def start (peer : PeerTxState) (txid : TxId) (size : SizeInBytes) : PeerTxState :=
  { peer with
    inFlight := insert txid peer.inFlight
    inFlightSizes := peer.inFlightSizes.insert txid size
    inflightBytes := saturatingAdd peer.inflightBytes size.toUInt64 }

end PeerTxState

/-- The parts of the state that a loop over one peer's transactions updates. -/
structure FetchProgress where
  entry : PeerTxState
  globalInFlight : Finset TxId
  inflightBytesTotal : UInt64

namespace FetchProgress

/-- Loop body of `mark_in_flight_sized`. -/
def start (progress : FetchProgress) (sized : TxId × SizeInBytes) : FetchProgress :=
  if sized.1 ∈ progress.entry.inFlight then progress
  else
    { entry := progress.entry.start sized.1 sized.2
      globalInFlight := insert sized.1 progress.globalInFlight
      inflightBytesTotal := saturatingAdd progress.inflightBytesTotal sized.2.toUInt64 }

/-- Loop body of `mark_in_flight`. -/
def startUnsized (progress : FetchProgress) (txid : TxId) : FetchProgress :=
  { progress with
    entry := { progress.entry with inFlight := insert txid progress.entry.inFlight }
    globalInFlight := insert txid progress.globalInFlight }

/-- Loop body of `mark_received` and `mark_not_found`: the transaction leaves the global set
whoever else is fetching it. -/
def finish (progress : FetchProgress) (txid : TxId) : FetchProgress where
  entry := progress.entry.finish txid
  globalInFlight := progress.globalInFlight.erase txid
  inflightBytesTotal :=
    PeerTxState.giveBack progress.inflightBytesTotal (progress.entry.releasedSize txid)

end FetchProgress

structure FilterOutcome where
  toFetch : List TxId
  alreadyKnown : List TxId
deriving DecidableEq, Repr

structure TxState (Peer : Type) where
  known : Finset TxId
  knownOrder : List TxId
  knownCapacity : Nat
  globalInFlight : Finset TxId
  inflightBytesTotal : UInt64
  peers : KeyedMap Peer PeerTxState

namespace TxState

variable {Peer : Type} [DecidableEq Peer]

def new (knownCapacity : Nat) : TxState Peer where
  known := ∅
  knownOrder := []
  knownCapacity := knownCapacity
  globalInFlight := ∅
  inflightBytesTotal := 0
  peers := ∅

/-- Evict the oldest known transactions while there are too many.  The source's loop does not
end when the queue runs dry first; it cannot, since every known transaction is queued. -/
def evictKnown (capacity : Nat) : Finset TxId → List TxId → Finset TxId × List TxId
  | known, [] => (known, [])
  | known, old :: rest =>
    if known.card > capacity then evictKnown capacity (known.erase old) rest
    else (known, old :: rest)

variable (state : TxState Peer) (txid : TxId) (peer : Peer) (sizedTxids : List (TxId × SizeInBytes))
  (txids : List TxId)

def insertKnown : TxState Peer :=
  if txid ∈ state.known then state
  else
    let kept := evictKnown state.knownCapacity (insert txid state.known)
      (state.knownOrder ++ [txid])
    { state with known := kept.1, knownOrder := kept.2 }

/-- Register a peer; nothing happens if it is tracked already. -/
def registerPeer : TxState Peer :=
  match state.peers.lookup peer with
  | some _ => state
  | none => { state with peers := state.peers.insert peer PeerTxState.new }

/-- Forget a peer and cancel its fetches. -/
def unregisterPeer : TxState Peer :=
  match state.peers.lookup peer with
  | some entry =>
    { state with
      peers := state.peers.erase peer
      globalInFlight := state.globalInFlight \ entry.inFlight
      inflightBytesTotal := saturatingSub state.inflightBytesTotal entry.inflightBytes }
  | none => state

def isSeen : Bool := txid ∈ state.known ∨ txid ∈ state.globalInFlight

/-- Split advertised transactions into those to fetch, which become unacknowledged for the
peer, and those already known or in flight. -/
def filterAdvertised : FilterOutcome × TxState Peer :=
  let toFetch := txids.filter fun txid => !state.isSeen txid
  let entry := (state.peers.lookup peer).getD PeerTxState.new
  ({ toFetch, alreadyKnown := txids.filter state.isSeen },
    { state with
      peers := state.peers.insert peer
        { entry with unacknowledged := entry.unacknowledged ∪ toFetch.toFinset } })

/-- How many transactions are being fetched from the peer. -/
def peerInflightCount : Nat :=
  ((state.peers.lookup peer).map fun entry => entry.inFlight.card).getD 0

/-- How many advertised bytes are being fetched from the peer. -/
def peerInflightBytes : UInt64 := ((state.peers.lookup peer).map PeerTxState.inflightBytes).getD 0

/-- The peer's entry with the global counters. -/
def progress (entry : PeerTxState) : FetchProgress where
  entry := entry
  globalInFlight := state.globalInFlight
  inflightBytesTotal := state.inflightBytesTotal

/-- Write a peer's loop result back. -/
def store (progress : FetchProgress) : TxState Peer :=
  { state with
    peers := state.peers.insert peer progress.entry
    globalInFlight := progress.globalInFlight
    inflightBytesTotal := progress.inflightBytesTotal }

/-- Mark transactions as being fetched from the peer, with their advertised sizes. -/
def markInFlightSized : TxState Peer :=
  match state.peers.lookup peer with
  | some entry =>
    state.store peer (sizedTxids.foldl FetchProgress.start (state.progress entry))
  | none => state

/-- Mark transactions as being fetched from the peer, without their sizes. -/
def markInFlight : TxState Peer :=
  match state.peers.lookup peer with
  | some entry => state.store peer (txids.foldl FetchProgress.startUnsized (state.progress entry))
  | none => state

/-- The part that `mark_received` and `mark_not_found` share. -/
def releaseInFlight : TxState Peer :=
  match state.peers.lookup peer with
  | some entry => state.store peer (txids.foldl FetchProgress.finish (state.progress entry))
  | none => state

/-- The transactions arrived and become known. -/
def markReceived : TxState Peer := txids.foldl insertKnown (state.releaseInFlight peer txids)

/-- The peer could not deliver the transactions. -/
def markNotFound : TxState Peer := state.releaseInFlight peer txids

/-- First loop of `mark_confirmed`. -/
def confirmOne : TxState Peer :=
  insertKnown { state with globalInFlight := state.globalInFlight.erase txid } txid

/-- The global byte count after the cleanup of one peer's entry. -/
def giveBackAll (total : UInt64) (entry : PeerTxState) : UInt64 :=
  (txids.foldl
    (fun cleanup txid =>
      (cleanup.1.finish txid, PeerTxState.giveBack cleanup.2 (cleanup.1.releasedSize txid)))
    (entry, total)).2

/-- The transactions are in a block: known, and no longer fetched from anyone. -/
def markConfirmed : TxState Peer :=
  let confirmed := txids.foldl confirmOne state
  { confirmed with
    peers := KeyedMap.mapValues (fun entry => txids.foldl PeerTxState.finish entry) confirmed.peers
    inflightBytesTotal := confirmed.peers.entries.foldl
      (fun total entry => giveBackAll txids total entry.2) confirmed.inflightBytesTotal }

/-! ## The state as a table of held transactions -/

def inFlightOf : Finset TxId :=
  match state.peers.lookup peer with
  | some entry => entry.inFlight
  | none => ∅

/-- Peers hold what is being fetched from them; the global set is the index. -/
def holdings : Holdings Peer TxId where
  held := fun peer => (state.inFlightOf peer : Set TxId)
  index := (state.globalInFlight : Set TxId)

theorem foldl_start_inFlight (progress : FetchProgress) :
    (sizedTxids.foldl FetchProgress.start progress).entry.inFlight =
        progress.entry.inFlight ∪ (sizedTxids.map Prod.fst).toFinset ∧
      (sizedTxids.foldl FetchProgress.start progress).globalInFlight =
        progress.globalInFlight ∪
          ((sizedTxids.map Prod.fst).toFinset \ progress.entry.inFlight) := by
  induction sizedTxids generalizing progress with
  | nil => simp
  | cons sized rest ih =>
    obtain ⟨hflight, hglobal⟩ := ih (progress.start sized)
    rw [List.foldl_cons, hflight, hglobal]
    unfold FetchProgress.start
    -- the loop body does nothing for a transaction that the peer already fetches
    by_cases hmem : sized.1 ∈ progress.entry.inFlight
    · rw [if_pos hmem]
      constructor
      · ext txid
        simp only [Finset.mem_union, List.map_cons, List.toFinset_cons, Finset.mem_insert]
        grind
      · ext txid
        simp only [Finset.mem_union, Finset.mem_sdiff, List.map_cons, List.toFinset_cons,
          Finset.mem_insert]
        grind
    · rw [if_neg hmem]
      simp only [PeerTxState.start]
      constructor
      · ext txid
        simp only [Finset.mem_union, List.map_cons, List.toFinset_cons, Finset.mem_insert]
        grind
      · ext txid
        simp only [Finset.mem_union, Finset.mem_sdiff, List.map_cons, List.toFinset_cons,
          Finset.mem_insert]
        grind

variable (state : TxState Peer) (peer : Peer) (txids : List TxId)

theorem foldl_finish_inFlight (entry : PeerTxState) :
    (txids.foldl PeerTxState.finish entry).inFlight = entry.inFlight \ txids.toFinset := by
  induction txids generalizing entry with
  | nil => simp
  | cons txid rest ih =>
    rw [List.foldl_cons, ih]
    ext other
    simp only [PeerTxState.finish, Finset.mem_sdiff, List.toFinset_cons, Finset.mem_insert]
    grind

theorem foldl_progress_finish (progress : FetchProgress) :
    (txids.foldl FetchProgress.finish progress).entry =
        txids.foldl PeerTxState.finish progress.entry ∧
      (txids.foldl FetchProgress.finish progress).globalInFlight =
        progress.globalInFlight \ txids.toFinset := by
  induction txids generalizing progress with
  | nil => simp
  | cons txid rest ih =>
    obtain ⟨hentry, hglobal⟩ := ih (progress.finish txid)
    refine ⟨hentry, ?_⟩
    rw [List.foldl_cons, hglobal]
    ext other
    simp only [FetchProgress.finish, Finset.mem_sdiff, List.toFinset_cons, Finset.mem_insert]
    grind

/-- Replacing one peer's entry changes what that peer holds, and the index as told. -/
theorem holdings_insert (entry : PeerTxState) (globalInFlight : Finset TxId) (total : UInt64) :
    TxState.holdings { state with
      peers := state.peers.insert peer entry
      globalInFlight
      inflightBytesTotal := total } =
      { held := Function.update state.holdings.held peer entry.inFlight
        index := globalInFlight } := by
  ext1
  · funext other
    by_cases hsame : other = peer
    · subst hsame
      simp [holdings, inFlightOf]
    · simp [holdings, inFlightOf, hsame]
  · rfl

theorem held_of_lookup {state : TxState Peer} {peer : Peer} {entry : PeerTxState}
    (hlookup : state.peers.lookup peer = some entry) :
    state.holdings.held peer = entry.inFlight := by
  simp [holdings, inFlightOf, hlookup]

theorem held_of_lookup_none {state : TxState Peer} {peer : Peer}
    (hlookup : state.peers.lookup peer = none) : state.holdings.held peer = ∅ := by
  simp [holdings, inFlightOf, hlookup]

theorem holdings_insertKnown : (state.insertKnown txid).holdings = state.holdings := by
  unfold insertKnown
  split <;> rfl

theorem holdings_foldl_insertKnown : (txids.foldl insertKnown state).holdings = state.holdings := by
  induction txids generalizing state with
  | nil => rfl
  | cons txid rest ih => rw [List.foldl_cons, ih, holdings_insertKnown]

theorem holdings_registerPeer : (state.registerPeer peer).holdings = state.holdings := by
  unfold registerPeer
  split
  · rfl
  · rename_i hlookup
    rw [holdings_insert]
    ext1
    · refine Function.update_eq_self_iff.mpr ?_
      simp [held_of_lookup_none hlookup, PeerTxState.new]
    · rfl

theorem holdings_filterAdvertised :
    (state.filterAdvertised peer txids).2.holdings = state.holdings := by
  simp only [filterAdvertised]
  rw [holdings_insert]
  ext1
  · refine Function.update_eq_self_iff.mpr ?_
    cases hlookup : state.peers.lookup peer with
    | none => simp [held_of_lookup_none hlookup, PeerTxState.new]
    | some entry => simp [held_of_lookup hlookup]
  · rfl

theorem holdings_unregisterPeer :
    (state.unregisterPeer peer).holdings = state.holdings.drop peer := by
  unfold unregisterPeer
  cases hlookup : state.peers.lookup peer with
  | none =>
    ext1
    · refine (Function.update_eq_self_iff.mpr ?_).symm
      simp [held_of_lookup_none hlookup]
    · simp [Holdings.drop, Holdings.release, held_of_lookup_none hlookup]
  | some entry =>
    ext1
    · funext other
      simp only [Holdings.drop, Holdings.release, Set.sdiff_self]
      by_cases hsame : other = peer
      · subst hsame
        simp [holdings, inFlightOf]
      · simp [holdings, inFlightOf, AList.lookup_erase_ne, hsame]
    · simp only [Holdings.drop, Holdings.release, held_of_lookup hlookup]
      simp [holdings]

section

variable {state : TxState Peer} {peer : Peer} {entry : PeerTxState}
  (hlookup : state.peers.lookup peer = some entry)
include hlookup

theorem holdings_markInFlightSized (sizedTxids : List (TxId × SizeInBytes)) :
    (state.markInFlightSized peer sizedTxids).holdings =
      state.holdings.claim peer {txid | txid ∈ sizedTxids.map Prod.fst} := by
  obtain ⟨hflight, hglobal⟩ := foldl_start_inFlight sizedTxids (state.progress entry)
  simp only [markInFlightSized, hlookup, store]
  rw [holdings_insert, hflight, hglobal, Holdings.claim, held_of_lookup hlookup]
  ext1
  · refine congrArg (Function.update state.holdings.held peer) ?_
    ext txid
    simp [progress]
  · ext txid
    simp [progress, holdings]

theorem holdings_releaseInFlight (txids : List TxId) :
    (state.releaseInFlight peer txids).holdings =
      state.holdings.release peer {txid | txid ∈ txids} := by
  obtain ⟨hentry, hglobal⟩ := foldl_progress_finish txids (state.progress entry)
  simp only [releaseInFlight, hlookup, store]
  rw [holdings_insert, hentry, foldl_finish_inFlight, hglobal, Holdings.release,
    held_of_lookup hlookup]
  ext1
  · refine congrArg (Function.update state.holdings.held peer) ?_
    ext txid
    simp [progress]
  · ext txid
    simp [progress, holdings]

end

omit [DecidableEq Peer] in
theorem foldl_confirmOne :
    (txids.foldl confirmOne state).peers = state.peers ∧
      (txids.foldl confirmOne state).globalInFlight = state.globalInFlight \ txids.toFinset := by
  induction txids generalizing state with
  | nil => simp
  | cons txid rest ih =>
    obtain ⟨hpeers, hglobal⟩ := ih (state.confirmOne txid)
    have hkeep : (state.confirmOne txid).peers = state.peers ∧
        (state.confirmOne txid).globalInFlight = state.globalInFlight.erase txid := by
      unfold confirmOne insertKnown
      split <;> exact ⟨rfl, rfl⟩
    rw [List.foldl_cons, hpeers, hglobal, hkeep.1, hkeep.2]
    refine ⟨rfl, ?_⟩
    ext other
    simp only [Finset.mem_sdiff, Finset.mem_erase, List.toFinset_cons, Finset.mem_insert]
    grind

theorem holdings_markConfirmed :
    (state.markConfirmed txids).holdings = state.holdings.purge {txid | txid ∈ txids} := by
  obtain ⟨hpeers, hglobal⟩ := foldl_confirmOne state txids
  ext1
  · funext peer
    ext txid
    simp only [markConfirmed, holdings, inFlightOf, KeyedMap.lookup_mapValues, hpeers,
      Holdings.purge]
    cases state.peers.lookup peer with
    | none => simp
    | some entry => simp [foldl_finish_inFlight]
  · ext txid
    simp [markConfirmed, holdings, hglobal, Holdings.purge]

end TxState

end Yggdrasil.Consensus.Mempool
