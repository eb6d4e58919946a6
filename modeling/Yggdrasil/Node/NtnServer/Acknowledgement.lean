import Yggdrasil.Node.NtnServer.TxSubmission

/-!
# Acknowledgement of advertised transactions

`run_txsubmission_server` of `crates/node/ntn-server/src/lib.rs` with deduplication, seen from one
session: which of the advertised transaction ids the server acknowledges.  The client keeps its
unacknowledged ids in a queue and drops as many from its front as a `MsgRequestTxIds` says, so an
acknowledgement is a number and what it covers is decided by positions.  The server computes the
number from the last reply alone: the ids it advertised less those that the budgets deferred.  That
is right as long as the deferred ids are the last of their reply and nothing is advertised behind
them (`acknowledgedHandled_iff_orderly`).

Other sessions may change the shared state before every call of this one (`Interference`).  The
number of ids that the server asks for is left out: the client may advertise any number.  So are
the transactions it delivers, as far as more than their sizes matters.
-/

namespace Yggdrasil.Node.NtnServer

open Ledger Library Consensus.Mempool

/-! ## The limits -/

def maxTxsSizeInflightPerPeer : UInt64 := 64 * 1024

def maxTxsSizeInflightTotal : UInt64 := 64 * 1024 * 32

def maxTxsRequestedPerPeer : Nat := 32

/-! ## One session -/

/-- What other sessions do to the shared state before each call. -/
structure Interference (Peer : Type) where
  beforeFilter : TxState Peer → TxState Peer := id
  beforeCount : TxState Peer → TxState Peer := id
  beforeBytes : TxState Peer → TxState Peer := id
  beforeTotal : TxState Peer → TxState Peer := id
  beforeMark : TxState Peer → TxState Peer := id
  beforeFinish : TxState Peer → TxState Peer := id

/-- The client's answer to `MsgRequestTxs`: the sizes of the bodies, or none in time. -/
inductive TxsReply where
  | bodies (sizes : List Nat)
  | failed
deriving DecidableEq, Repr

/-- The client's answer to `MsgRequestTxIds`; `failed` is an error of the connection. -/
inductive TxIdsReply where
  | txIds (advertised : List (TxId × SizeInBytes))
  | done
  | failed
deriving DecidableEq, Repr

/-- One session between two requests.  The queue is the client's; `handled`, `deferred` and
`acknowledged` record what has happened: the ids found known or requested, those that a budget
deferred, and those the client has dropped. -/
structure AckSession (Peer : Type) where
  tx : TxState Peer
  closed : Bool
  unacknowledged : List TxId
  handled : List TxId
  deferred : List TxId
  acknowledged : List TxId

/-- What the client answers until the next `MsgRequestTxIds`, and what others do meanwhile. -/
structure AckReply (Peer : Type) where
  others : Interference Peer := {}
  ids : TxIdsReply
  txs : TxsReply

variable {Peer : Type} [DecidableEq Peer]

def AckReply.advertised (reply : AckReply Peer) : List (TxId × SizeInBytes) :=
  match reply.ids with
  | .txIds advertised => advertised
  | .done | .failed => []

/-- What the server decides about a reply with ids to fetch. -/
structure Decision (Peer : Type) where
  toRequest : List TxId
  deferred : Nat
  tx : TxState Peer

/-- Narrow the ids to fetch by the count budget, then by the two byte budgets, and mark the rest
as in flight. -/
def decideRequest (others : Interference Peer) (peer : Peer) (sizes : KeyedMap TxId SizeInBytes)
    (toFetch : List TxId) (tx : TxState Peer) : Decision Peer :=
  let atCount := others.beforeCount tx
  let byCount := clampToCountBudget toFetch
    (maxTxsRequestedPerPeer - atCount.peerInflightCount peer)
  let atBytes := others.beforeBytes atCount
  let perPeerRemaining := saturatingSub maxTxsSizeInflightPerPeer (atBytes.peerInflightBytes peer)
  let atTotal := others.beforeTotal atBytes
  let globalRemaining := saturatingSub maxTxsSizeInflightTotal atTotal.inflightBytesTotal
  let byBytes := selectWithinByteBudget byCount.1
    (fun txid => ((sizes.lookup txid).getD 0).toUInt64) (min perPeerRemaining globalRemaining)
  { toRequest := byBytes.1
    deferred := byCount.2 + byBytes.2
    tx := (others.beforeMark atTotal).markInFlightSized peer (ServerState.sized sizes byBytes.1) }

/-- The next acknowledgement: all advertised ids but the deferred ones, as a 16-bit word. -/
def nextAck (advertisedCount deferred : Nat) : UInt16 :=
  .ofNat (min (advertisedCount - deferred) 65535)

/-- The sizes of the delivered bodies are compared with the advertised ones, as 32-bit words, when
as many came as were requested. -/
def sizesMatch (sizes : KeyedMap TxId SizeInBytes) (toRequest : List TxId) (bodies : List Nat) :
    Bool :=
  (bodies.zip toRequest).all fun delivered =>
    match sizes.lookup delivered.2 with
    | some advertised => UInt32.ofNat delivered.1 == advertised
    | none => true

namespace AckSession

variable (session : AckSession Peer) (others : Interference Peer) (peer : Peer)

/-- `MsgRequestTxIds`: the client drops what it acknowledges. -/
def request (ack : UInt16) : AckSession Peer :=
  { session with
    unacknowledged := session.unacknowledged.drop ack.toNat
    acknowledged := session.acknowledged ++ session.unacknowledged.take ack.toNat }

def close : AckSession Peer :=
  { session with tx := session.tx.unregisterPeer peer, closed := true }

/-- Put a reply into the client's queue and record what became of its ids. -/
def record (txids known requested deferred : List TxId) : AckSession Peer :=
  { session with
    unacknowledged := session.unacknowledged ++ txids
    handled := session.handled ++ known ++ requested
    deferred := session.deferred ++ deferred }

/-- Settle the bodies that came; `none` ends the session. -/
def settle (sizes : KeyedMap TxId SizeInBytes) (toRequest : List TxId) (tx : TxState Peer) :
    TxsReply → Option (TxState Peer)
  | .failed => none
  | .bodies bodies =>
    if bodies.length = toRequest.length then
      if sizesMatch sizes toRequest bodies then
        some ((others.beforeFinish tx).markReceived peer toRequest)
      else none
    -- A short reply counts as not delivered at all.
    else some ((others.beforeFinish tx).markNotFound peer toRequest)

/-- The shared state splits the advertised ids into those to fetch and those known. -/
def filtered (advertised : List (TxId × SizeInBytes)) : FilterOutcome × TxState Peer :=
  (others.beforeFilter session.tx).filterAdvertised peer (advertised.map Prod.fst)

def decided (advertised : List (TxId × SizeInBytes)) : Decision Peer :=
  decideRequest others peer (ServerState.advertisedSizes advertised)
    (session.filtered others peer advertised).1.toFetch
    (session.filtered others peer advertised).2

/-- The ids of a reply that are neither known nor requested. -/
def deferredIds (advertised : List (TxId × SizeInBytes)) : List TxId :=
  (session.filtered others peer advertised).1.toFetch.drop
    (session.decided others peer advertised).toRequest.length

/-- The rest of the loop body once ids have been advertised, and the next request. -/
def consume (advertised : List (TxId × SizeInBytes)) (txs : TxsReply) : AckSession Peer :=
  let txids := advertised.map Prod.fst
  let outcome := session.filtered others peer advertised
  if outcome.1.toFetch = [] then
    { session.record txids outcome.1.alreadyKnown [] [] with tx := outcome.2 }.request
      (nextAck txids.length 0)
  else
    let decision := session.decided others peer advertised
    let recorded := session.record txids outcome.1.alreadyKnown decision.toRequest
      (session.deferredIds others peer advertised)
    match settle others peer (ServerState.advertisedSizes advertised) decision.toRequest
      decision.tx txs with
    | none => { recorded with tx := decision.tx }.close peer
    | some tx => { recorded with tx }.request (nextAck txids.length decision.deferred)

/-- One turn of the loop.  After an empty reply nothing is acknowledged. -/
def step (reply : AckReply Peer) : AckSession Peer :=
  match reply.ids with
  | .done | .failed => session.close peer
  | .txIds [] => session.request 0
  | .txIds advertised => session.consume reply.others peer advertised reply.txs

/-- The ids of a reply that the server goes on with. -/
def consumed (reply : AckReply Peer) : List (TxId × SizeInBytes) :=
  if (session.step peer reply).closed then [] else reply.advertised

/-- Nothing was deferred before, and what is deferred now are the last ids of the reply. -/
def Orderly (reply : AckReply Peer) : Prop :=
  session.consumed peer reply ≠ [] → session.deferred = [] ∧
    session.deferredIds reply.others peer reply.advertised <:+ reply.advertised.map Prod.fst

/-- The ids of the reply are new to the session and all different, and a request can acknowledge as
many. -/
structure New (reply : AckReply Peer) : Prop where
  nodup : (reply.advertised.map Prod.fst).Nodup
  bound : reply.advertised.length ≤ 65535
  fresh : ∀ txid ∈ reply.advertised.map Prod.fst, txid ∉ session.handled ∧ txid ∉ session.deferred

end AckSession

/-- A session over any shared state; the first request acknowledges nothing. -/
def ackSystem (peer : Peer) (tx : TxState Peer) :
    TransitionSystem (AckSession Peer) (AckReply Peer) where
  start :=
    { tx := tx.registerPeer peer
      closed := false
      unacknowledged := []
      handled := []
      deferred := []
      acknowledged := [] }
  enabled := fun session _ => session.closed = false
  step := fun session reply => session.step peer reply

/-- Every id the client has dropped was found known or requested before. -/
def AcknowledgedHandled (session : AckSession Peer) : Prop :=
  session.acknowledged ⊆ session.handled

/-! ## What the budgets leave -/

/-- A budget splits the candidates: it admits a front part, not an empty one, and counts the
rest. -/
structure Splits (candidates : List TxId) (split : List TxId × Nat) : Prop where
  front : split.1 <+: candidates
  count : split.1.length + split.2 = candidates.length
  some : candidates ≠ [] → split.1 ≠ []

theorem splits_clampToCountBudget (candidates : List TxId) (budgetRemaining : Nat) :
    Splits candidates (clampToCountBudget candidates budgetRemaining) := by
  unfold clampToCountBudget
  split
  · next hnone => exact ⟨List.nil_prefix, by simp [hnone], fun hsome => absurd hnone hsome⟩
  · refine ⟨List.take_prefix _ _, by simp, fun hsome => ?_⟩
    have := List.length_pos_iff.mpr hsome
    rw [← List.length_pos_iff, List.length_take]
    omega

theorem splits_selectWithinByteBudget (candidates : List TxId) (size : TxId → UInt64)
    (budgetRemaining : UInt64) :
    Splits candidates (selectWithinByteBudget candidates size budgetRemaining) := by
  cases candidates with
  | nil => exact ⟨List.prefix_refl _, rfl, fun hsome => absurd rfl hsome⟩
  | cons first rest =>
    have hfront := (selectLoop_spec size (saturatingSub budgetRemaining (size first)) rest).1
    have hlength := hfront.length_le
    simp only [selectWithinByteBudget, selectLoop, Bool.not_false, true_or, if_true]
    refine ⟨List.cons_prefix_cons.mpr ⟨rfl, hfront⟩, ?_, fun _ => List.cons_ne_nil _ _⟩
    simp only [List.length_cons]
    omega

theorem Splits.trans {candidates : List TxId} {first second : List TxId × Nat}
    (hfirst : Splits candidates first) (hsecond : Splits first.1 second) :
    Splits candidates (second.1, first.2 + second.2) where
  front := hsecond.front.trans hfirst.front
  count := by
    have hlength := hsecond.count
    have := hfirst.count
    dsimp only
    omega
  some hsome := hsecond.some (hfirst.some hsome)

theorem splits_decideRequest (others : Interference Peer) (peer : Peer)
    (sizes : KeyedMap TxId SizeInBytes) (toFetch : List TxId) (tx : TxState Peer) :
    Splits toFetch ((decideRequest others peer sizes toFetch tx).toRequest,
      (decideRequest others peer sizes toFetch tx).deferred) :=
  (splits_clampToCountBudget toFetch _).trans (splits_selectWithinByteBudget _ _ _)

/-! ## Deferred ids at the end of a reply -/

section

variable {txids requested deferred : List TxId} {new : TxId → Bool}
  (hsplit : txids.filter new = requested ++ deferred)

include hsplit

theorem length_deferred_le : deferred.length ≤ txids.length := by
  have hcount := congrArg List.length hsplit
  have := List.length_filter_le new txids
  rw [List.length_append] at hcount
  omega

/-- When the deferred ids end the reply, the new ones before them are requested. -/
theorem requested_of_suffix (hlast : deferred <:+ txids) {txid : TxId}
    (hid : txid ∈ txids.take (txids.length - deferred.length)) (hnew : new txid = true) :
    txid ∈ requested := by
  obtain ⟨front, rfl⟩ := hlast
  rw [List.take_left' (by simp)] at hid
  have hdeferred : deferred.filter new = deferred := List.filter_eq_self.mpr fun txid hmem =>
    (List.mem_filter.mp (hsplit ▸ List.mem_append_right requested hmem)).2
  rw [List.filter_append, hdeferred] at hsplit
  exact List.append_cancel_right hsplit ▸ List.mem_filter.mpr ⟨hid, hnew⟩

theorem suffix_of_requested (hnodup : txids.Nodup)
    (hfirst : ∀ txid ∈ txids.take (txids.length - deferred.length), new txid = true →
      txid ∈ requested) : deferred <:+ txids := by
  have hbound := length_deferred_le hsplit
  generalize hcut : txids.length - deferred.length = cut at hfirst
  have hback : (txids.drop cut).length = deferred.length := by
    rw [List.length_drop]
    omega
  have hparts : (txids.take cut).filter new ++ (txids.drop cut).filter new =
      requested ++ deferred := by
    rw [← List.filter_append, List.take_append_drop, hsplit]
  have hends : (txids.drop cut).filter new = deferred := by
    have hfiltered := List.length_filter_le new (txids.drop cut)
    rcases List.append_eq_append_iff.mp hparts with ⟨between, -, hrest⟩ | ⟨between, hfront, hrest⟩
    · have hcount := congrArg List.length hrest
      rw [List.length_append] at hcount
      obtain rfl : between = [] := List.eq_nil_of_length_eq_zero (by omega)
      exact hrest
    · -- what lies between would be deferred and come first, hence be requested as well
      suffices hnone : between = [] by rw [hrest, hnone, List.nil_append]
      refine List.eq_nil_iff_forall_not_mem.mpr fun txid hbetween => ?_
      have hmem := hfront ▸ List.mem_append_right requested hbetween
      obtain ⟨htake, hnew⟩ := List.mem_filter.mp hmem
      have hdisjoint := (List.nodup_append.mp (hsplit ▸ hnodup.filter new)).2.2
      exact hdisjoint txid (hfirst txid htake hnew) txid
        (hrest ▸ List.mem_append_left _ hbetween) rfl
  rw [← hends, List.filter_eq_self.mpr (List.length_filter_eq_length_iff.mp (by rw [hends, hback]))]
  exact List.drop_suffix _ _

end

/-! ## One turn of the loop -/

section

variable (session : AckSession Peer) (others : Interference Peer) (peer : Peer)
  (advertised : List (TxId × SizeInBytes)) (reply : AckReply Peer)

/-- The new ids are the requested ones, followed by the deferred ones. -/
theorem filter_new : (advertised.map Prod.fst).filter
      (fun txid => !(others.beforeFilter session.tx).isSeen txid) =
    (session.decided others peer advertised).toRequest ++
      session.deferredIds others peer advertised :=
  List.prefix_append_drop (splits_decideRequest others peer _ _ _).front

theorem length_deferredIds : (session.deferredIds others peer advertised).length =
    (session.decided others peer advertised).deferred := by
  have hcount := (splits_decideRequest others peer (ServerState.advertisedSizes advertised)
    (session.filtered others peer advertised).1.toFetch
    (session.filtered others peer advertised).2).count
  unfold AckSession.deferredIds
  rw [List.length_drop, ← hcount]
  exact Nat.add_sub_cancel_left _ _

theorem deferredIds_of_nothing_to_fetch
    (hnothing : (session.filtered others peer advertised).1.toFetch = []) :
    (session.decided others peer advertised).toRequest = [] ∧
      session.deferredIds others peer advertised = [] := by
  rw [← List.append_eq_nil_iff, ← filter_new]
  exact hnothing

theorem consumed_eq (hsome : session.consumed peer reply ≠ []) :
    (session.step peer reply).closed = false ∧ session.consumed peer reply = reply.advertised := by
  unfold AckSession.consumed at hsome ⊢
  split at hsome
  · exact absurd rfl hsome
  · next hopen => exact ⟨Bool.eq_false_iff.mpr hopen, if_neg hopen⟩

/-- The server goes on with a reply: its ids are recorded and the next request acknowledges as
many as were not deferred. -/
theorem step_of_consumed (hsome : session.consumed peer reply ≠ []) :
    ∃ tx, session.step peer reply =
      { session.record (reply.advertised.map Prod.fst)
          (session.filtered reply.others peer reply.advertised).1.alreadyKnown
          (session.decided reply.others peer reply.advertised).toRequest
          (session.deferredIds reply.others peer reply.advertised) with
        tx }.request (nextAck reply.advertised.length
          (session.deferredIds reply.others peer reply.advertised).length) := by
  obtain ⟨hopen, hconsumed⟩ := consumed_eq session peer reply hsome
  rw [hconsumed] at hsome
  obtain ⟨others, ids, txs⟩ := reply
  cases ids with
  | done | failed => exact absurd rfl hsome
  | txIds advertised =>
    obtain ⟨first, rest, rfl⟩ := List.exists_cons_of_ne_nil hsome
    revert hopen
    rw [length_deferredIds]
    simp only [AckSession.step, AckSession.consume, AckReply.advertised, List.length_map]
    split
    · next hnothing =>
      obtain ⟨hrequest, hdeferred⟩ := deferredIds_of_nothing_to_fetch session others peer _ hnothing
      intro _
      rw [← length_deferredIds, hrequest, hdeferred]
      exact ⟨_, rfl⟩
    · split
      · exact nofun
      · exact fun _ => ⟨_, rfl⟩

/-- A reply the server does not go on with acknowledges nothing. -/
theorem step_of_not_consumed (hopen : session.closed = false)
    (hnone : session.consumed peer reply = []) :
    (session.step peer reply).acknowledged = session.acknowledged ∧
      session.handled ⊆ (session.step peer reply).handled ∧
      ((session.step peer reply).closed = false → session.step peer reply = session) := by
  obtain ⟨others, ids, txs⟩ := reply
  cases ids with
  | done | failed => exact ⟨rfl, List.Subset.refl _, nofun⟩
  | txIds advertised =>
    cases advertised with
    | nil =>
      have hsame : session.step peer ⟨others, .txIds [], txs⟩ = session := by
        simp [AckSession.step, AckSession.request]
      rw [hsame]
      exact ⟨rfl, List.Subset.refl _, fun _ => rfl⟩
    | cons first rest =>
      have hclosed : (session.step peer ⟨others, .txIds (first :: rest), txs⟩).closed = true := by
        by_contra hopen
        exact List.cons_ne_nil _ _ ((if_neg hopen).symm.trans hnone)
      revert hclosed
      simp only [AckSession.step, AckSession.consume]
      split
      · exact fun hclosed => absurd (hopen.symm.trans hclosed) (by decide)
      · split
        · refine fun _ => ⟨rfl, ?_, nofun⟩
          exact List.subset_append_of_subset_left _ (List.subset_append_left _ _)
        · exact fun hclosed => absurd (hopen.symm.trans hclosed) (by decide)

end

/-! ## Whole sessions -/

theorem toNat_nextAck (advertisedCount deferred : Nat) :
    (nextAck advertisedCount deferred).toNat = min (advertisedCount - deferred) 65535 := by
  unfold nextAck
  rw [UInt16.toNat_ofNat']
  omega

/-- What a reply that the server goes on with does to queue and records. -/
structure Round (session next : AckSession Peer) (new : TxId → Bool)
    (txids requested deferred : List TxId) : Prop where
  split : txids.filter new = requested ++ deferred
  progress : deferred.length < txids.length
  handled : ∀ txid, txid ∈ next.handled ↔
    txid ∈ session.handled ∨ (txid ∈ txids ∧ new txid = false) ∨ txid ∈ requested
  postponed : next.deferred = session.deferred ++ deferred
  queue : next.unacknowledged =
    (session.unacknowledged ++ txids).drop (min (txids.length - deferred.length) 65535)
  acknowledged : next.acknowledged = session.acknowledged ++
    (session.unacknowledged ++ txids).take (min (txids.length - deferred.length) 65535)

section

variable {session : AckSession Peer} {peer : Peer} {reply : AckReply Peer}

theorem step_round (hsome : session.consumed peer reply ≠ []) :
    ∃ new requested, Round session (session.step peer reply) new (reply.advertised.map Prod.fst)
      requested (session.deferredIds reply.others peer reply.advertised) := by
  obtain ⟨tx, hstep⟩ := step_of_consumed session peer reply hsome
  have hsplit := filter_new session reply.others peer reply.advertised
  refine ⟨_, _, hsplit, ?_, fun txid => ?_, ?_, ?_, ?_⟩
  · rw [(consumed_eq session peer reply hsome).2] at hsome
    have hcount := congrArg List.length hsplit
    have hfilter := List.length_filter_le (fun txid => !(reply.others.beforeFilter
      session.tx).isSeen txid) (reply.advertised.map Prod.fst)
    have hlength := List.length_pos_iff.mpr hsome
    rw [List.length_append] at hcount
    rw [List.length_map] at hfilter ⊢
    -- a budget admits something, unless there is nothing to fetch
    by_cases hrequest : (session.decided reply.others peer reply.advertised).toRequest = []
    · have hnothing := mt (splits_decideRequest reply.others peer
        (ServerState.advertisedSizes reply.advertised)
        (session.filtered reply.others peer reply.advertised).1.toFetch
        (session.filtered reply.others peer reply.advertised).2).some (not_not.mpr hrequest)
      rw [(deferredIds_of_nothing_to_fetch session reply.others peer reply.advertised
        (not_not.mp hnothing)).2]
      exact hlength
    · have := List.length_pos_iff.mpr hrequest
      omega
  all_goals rw [hstep]
  · simp [AckSession.request, AckSession.record, AckSession.filtered, TxState.filterAdvertised]
  · rfl
  all_goals
    rw [← toNat_nextAck, List.length_map]
    rfl

omit [DecidableEq Peer] in
/-- Every id of the reply is handled or deferred afterwards. -/
theorem Round.classified {next : AckSession Peer} {new : TxId → Bool}
    {txids requested deferred : List TxId} (hround : Round session next new txids requested deferred)
    {txid : TxId} (hid : txid ∈ txids) : txid ∈ next.handled ∨ txid ∈ next.deferred := by
  rw [hround.handled, hround.postponed, List.mem_append]
  cases hnew : new txid with
  | false => exact .inl (.inr (.inl ⟨hid, rfl⟩))
  | true =>
    have hmem : txid ∈ requested ++ deferred := hround.split ▸ List.mem_filter.mpr ⟨hid, hnew⟩
    exact (List.mem_append.mp hmem).imp (.inr <| .inr ·) .inr

/-- What an orderly session keeps: what the client has not dropped is handled or deferred. -/
structure Accounted (session : AckSession Peer) : Prop where
  acknowledged : AcknowledgedHandled session
  queued : session.closed = false →
    ∀ txid ∈ session.unacknowledged, txid ∈ session.handled ∨ txid ∈ session.deferred

theorem accounted_step (hopen : session.closed = false) (hsession : Accounted session)
    (horderly : session.Orderly peer reply) : Accounted (session.step peer reply) := by
  by_cases hnone : session.consumed peer reply = []
  · obtain ⟨hdropped, hhandled, hsame⟩ := step_of_not_consumed session peer reply hopen hnone
    refine ⟨fun txid hid => hhandled (hsession.acknowledged (hdropped ▸ hid)), fun hnext => ?_⟩
    rw [hsame hnext]
    exact hsession.queued hopen
  · obtain ⟨hdeferred, hlast⟩ := horderly hnone
    obtain ⟨new, requested, hround⟩ := step_round hnone
    have hold : ∀ txid ∈ session.unacknowledged, txid ∈ (session.step peer reply).handled := by
      intro txid hid
      have hqueued := hsession.queued hopen txid hid
      rw [hdeferred] at hqueued
      exact (hround.handled txid).mpr (.inl (hqueued.resolve_right List.not_mem_nil))
    constructor
    · intro txid hid
      rw [hround.acknowledged, List.mem_append, List.take_append, List.mem_append] at hid
      rcases hid with hbefore | hqueue | hreply
      · exact (hround.handled txid).mpr (.inl (hsession.acknowledged hbefore))
      · exact hold txid (List.mem_of_mem_take hqueue)
      · have hfront := List.take_subset_take_left (reply.advertised.map Prod.fst)
          ((Nat.sub_le _ _).trans (min_le_left _ _)) hreply
        refine (hround.handled txid).mpr (.inr ?_)
        cases hnew : new txid with
        | false => exact .inl ⟨List.mem_of_mem_take hfront, rfl⟩
        | true => exact .inr (requested_of_suffix hround.split hlast hfront hnew)
    · intro _ txid hid
      rw [hround.queue] at hid
      rcases List.mem_append.mp (List.mem_of_mem_drop hid) with hqueue | hreply
      · exact .inl (hold txid hqueue)
      · exact hround.classified hreply

/-- What a session with new ids keeps as long as it is orderly. -/
structure Drained (session : AckSession Peer) : Prop where
  acknowledged : AcknowledgedHandled session
  queue : session.closed = false → session.unacknowledged = session.deferred
  apart : session.closed = false → ∀ txid ∈ session.deferred, txid ∉ session.handled

theorem drained_step (hopen : session.closed = false) (hnew : session.New reply)
    (hsession : Drained session) (horderly : session.Orderly peer reply) :
    Drained (session.step peer reply) := by
  have hqueue := hsession.queue hopen
  have haccounted := accounted_step hopen
    ⟨hsession.acknowledged, fun _ txid hid => .inr (hqueue ▸ hid)⟩ horderly
  by_cases hnone : session.consumed peer reply = []
  · have hsame := (step_of_not_consumed session peer reply hopen hnone).2.2
    refine ⟨haccounted.acknowledged, fun hnext => ?_, fun hnext => ?_⟩
    · rw [hsame hnext, hqueue]
    · rw [hsame hnext]
      exact hsession.apart hopen
  · obtain ⟨hdeferred, hlast⟩ := horderly hnone
    obtain ⟨new, requested, hround⟩ := step_round hnone
    refine ⟨haccounted.acknowledged, fun _ => ?_, fun _ txid hid hhandled => ?_⟩
    · obtain ⟨front, hfront⟩ := hlast
      have hlength := congrArg List.length hfront
      have hbound := hnew.bound
      rw [List.length_append, List.length_map] at hlength
      rw [hround.queue, hround.postponed, hqueue, hdeferred, ← hfront, List.nil_append,
        List.nil_append]
      exact List.drop_left' (by rw [List.length_append]; omega)
    · rw [hround.postponed, hdeferred, List.nil_append] at hid
      have hmem := List.mem_filter.mp (hround.split ▸ List.mem_append_right requested hid)
      rcases (hround.handled txid).mp hhandled with hbefore | ⟨-, hseen⟩ | hrequested
      · exact (hnew.fresh txid hmem.1).1 hbefore
      · exact absurd (hmem.2.symm.trans hseen) (by decide)
      · exact (List.nodup_append.mp (hround.split ▸ hnew.nodup.filter new)).2.2 txid hrequested
          txid hid rfl

theorem orderly_of_step (hopen : session.closed = false) (hnew : session.New reply)
    (hsession : Drained session) (hnext : AcknowledgedHandled (session.step peer reply)) :
    session.Orderly peer reply := by
  intro hsome
  obtain ⟨new, requested, hround⟩ := step_round hsome
  have hfresh := hnew.fresh
  have hbound := hnew.bound
  rw [← List.length_map Prod.fst] at hbound
  have hsplit := hround.split
  have hprogress := hround.progress
  have hdropped := hround.acknowledged
  rw [hsession.queue hopen, min_eq_left (by omega)] at hdropped
  unfold AcknowledgedHandled at hnext
  rw [hdropped, List.append_subset] at hnext
  have hcovered := hnext.2
  have hdeferred : session.deferred = [] := by
    by_contra hwaiting
    obtain ⟨txid, rest, hqueue⟩ := List.exists_cons_of_ne_nil hwaiting
    obtain ⟨count, hcount⟩ := Nat.exists_eq_add_one_of_ne_zero (Nat.sub_ne_zero_of_lt hprogress)
    have hfirst : txid ∈ session.deferred := hqueue ▸ List.mem_cons_self
    rw [hcount, hqueue] at hcovered
    -- the first id that waits is dropped, though no round has handled it
    rcases (hround.handled txid).mp (hcovered List.mem_cons_self) with hbefore | ⟨hid, -⟩ | hrequested
    · exact hsession.apart hopen txid hfirst hbefore
    · exact (hfresh txid hid).2 hfirst
    · have hid := (List.mem_filter.mp (hsplit ▸ List.mem_append_left _ hrequested)).1
      exact (hfresh txid hid).2 hfirst
  refine ⟨hdeferred, suffix_of_requested hsplit hnew.nodup fun txid hid hunseen => ?_⟩
  rw [hdeferred, List.nil_append] at hcovered
  rcases (hround.handled txid).mp (hcovered hid) with hbefore | ⟨-, hseen⟩ | hrequested
  · exact absurd hbefore (hfresh txid (List.mem_of_mem_take hid)).1
  · exact absurd (hunseen.symm.trans hseen) (by decide)
  · exact hrequested

end

/-- **Acknowledged means taken care of.**  The client of a session drops only ids that were found
known or requested, as long as the deferred ids are the last of their reply and no ids are
advertised behind them; a client that advertises every id once drops others as soon as that
fails. -/
theorem acknowledgedHandled_iff_orderly (peer : Peer) (tx : TxState Peer)
    {replies : List (AckReply Peer)} (hlegal : (ackSystem peer tx).Legal replies) :
    ((∀ done reply, done ++ [reply] <+: replies →
        ((ackSystem peer tx).run done).Orderly peer reply) →
      ∀ done, done <+: replies → AcknowledgedHandled ((ackSystem peer tx).run done)) ∧
    ((∀ done reply, done ++ [reply] <+: replies → ((ackSystem peer tx).run done).New reply) →
      (∀ done, done <+: replies → AcknowledgedHandled ((ackSystem peer tx).run done)) →
      ∀ done reply, done ++ [reply] <+: replies →
        ((ackSystem peer tx).run done).Orderly peer reply) := by
  constructor
  · intro horderly done hdone
    let orderly := { ackSystem peer tx with
      enabled := fun session reply => session.closed = false ∧ session.Orderly peer reply }
    have hall : orderly.Legal replies := fun done reply hvisited =>
      ⟨hlegal done reply hvisited, horderly done reply hvisited⟩
    exact (orderly.invariant_of_legal Accounted ⟨List.nil_subset _, nofun⟩
      (fun _ _ henabled hsession => accounted_step henabled.1 hsession henabled.2)
      (hall.restrict hdone)).acknowledged
  · intro hnew
    let fresh := { ackSystem peer tx with
      enabled := fun session reply => session.closed = false ∧ session.New reply }
    have hall : fresh.Legal replies := fun done reply hvisited =>
      ⟨hlegal done reply hvisited, hnew done reply hvisited⟩
    exact (fresh.property_iff_guarded Drained AcknowledgedHandled
      (fun session reply => session.Orderly peer reply)
      ⟨List.nil_subset _, fun _ => rfl, nofun⟩ (fun _ hsession => hsession.acknowledged)
      (fun _ _ henabled hsession => drained_step henabled.1 henabled.2 hsession)
      (fun _ _ henabled hsession => orderly_of_step henabled.1 henabled.2 hsession) hall).mp

/-! ## Two sessions -/

def knowsThree : TxState Nat := (TxState.new 16).insertKnown 3

instance (session : AckSession Peer) (reply : AckReply Peer) (peer : Peer) :
    Decidable (session.Orderly peer reply) :=
  inferInstanceAs (Decidable (_ ≠ [] → _ = [] ∧ _ <:+ _))

instance (session : AckSession Peer) (reply : AckReply Peer) (peer : Peer) (tx : TxState Peer) :
    Decidable ((ackSystem peer tx).enabled session reply) :=
  inferInstanceAs (Decidable (session.closed = false))

/-- A known and a new transaction, and a reply whose last transaction no longer fits. -/
def deferredLast : List (AckReply Nat) :=
  [{ ids := .txIds [(3, 100), (1, 100)], txs := .bodies [100] },
    { ids := .txIds [(2, 60000), (4, 60000)], txs := .bodies [60000] }]

theorem deferredLast_handled :
    ((ackSystem 10 knowsThree).run deferredLast).acknowledged = [3, 1, 2] ∧
      ∀ done, done <+: deferredLast →
        AcknowledgedHandled ((ackSystem 10 knowsThree).run done) := by
  have hlegal : (ackSystem 10 knowsThree).Legal deferredLast :=
    TransitionSystem.legal_of_legalFrom _ (by decide +kernel)
  have horderly : ({ ackSystem 10 knowsThree with
      enabled := fun session reply => session.Orderly 10 reply }).Legal deferredLast :=
    TransitionSystem.legal_of_legalFrom _ (by decide +kernel)
  exact ⟨by decide +kernel, (acknowledgedHandled_iff_orderly 10 knowsThree hlegal).1 horderly⟩

/-- One reply: a large transaction to fetch, one that no longer fits, and one that is known. -/
def deferredBeforeKnown : List (AckReply Nat) :=
  [{ ids := .txIds [(1, 60000), (2, 60000), (3, 100)], txs := .bodies [60000] }]

/-- The server asks for transaction 1 only, and acknowledges 1 and 2. -/
theorem deferred_acknowledged :
    (ackSystem 10 knowsThree).Legal deferredBeforeKnown ∧
      ((ackSystem 10 knowsThree).run deferredBeforeKnown).handled = [3, 1] ∧
      ((ackSystem 10 knowsThree).run deferredBeforeKnown).acknowledged = [1, 2] ∧
      ¬ AcknowledgedHandled ((ackSystem 10 knowsThree).run deferredBeforeKnown) := by
  have hhandled : ((ackSystem 10 knowsThree).run deferredBeforeKnown).handled = [3, 1] := by
    decide +kernel
  have hdropped : ((ackSystem 10 knowsThree).run deferredBeforeKnown).acknowledged = [1, 2] := by
    decide +kernel
  refine ⟨TransitionSystem.legal_of_legalFrom _ (by decide +kernel), hhandled, hdropped, ?_⟩
  unfold AcknowledgedHandled
  rw [hhandled, hdropped]
  decide

end Yggdrasil.Node.NtnServer
