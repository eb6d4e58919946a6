import Yggdrasil.Consensus.Mempool.TxState
import Yggdrasil.Library.Runs

/-!
# Concurrent transaction-submission sessions

`run_txsubmission_server` of `crates/node/ntn-server/src/lib.rs`, as the sequence of its calls into
the shared transaction state.  Each call takes the lock on its own, so the sessions interleave
between calls: in particular between `filter_advertised`, which checks that nobody fetches a
transaction, and `mark_in_flight_sized`, which records the fetch.

The wire messages, the acknowledgement counters and the transaction bodies are left out; what a
session does with them decides only which call comes next, and every order the code allows is a
run here.  The server narrows the transactions to fetch to a front part by its count and byte
budgets (`admitted_within_budgets`); a run may take any front part.
-/

namespace Yggdrasil.Node.NtnServer

open Ledger Library Consensus.Mempool

/-! ## The request budgets -/

/-- Loop of `select_within_byte_budget`: admit while the sizes fit, the first one always. -/
def selectLoop (size : TxId → UInt64) :
    (admittedAny : Bool) → (remaining : UInt64) → List TxId → List TxId
  | _, _, [] => []
  | admittedAny, remaining, txid :: rest =>
    if !admittedAny ∨ size txid ≤ remaining then
      txid :: selectLoop size true (saturatingSub remaining (size txid)) rest
    else []

def selectWithinByteBudget (candidates : List TxId) (size : TxId → UInt64)
    (budgetRemaining : UInt64) : List TxId × Nat :=
  let admitted := selectLoop size false budgetRemaining candidates
  (admitted, candidates.length - admitted.length)

def clampToCountBudget (candidates : List TxId) (budgetRemaining : Nat) : List TxId × Nat :=
  if candidates = [] then ([], 0)
  else
    let count := min (max budgetRemaining 1) candidates.length
    (candidates.take count, candidates.length - count)

def totalSize (size : TxId → UInt64) (txids : List TxId) : Nat :=
  (txids.map fun txid => (size txid).toNat).sum

/-- After the first transaction the loop admits a front part of the others that fits. -/
theorem selectLoop_spec (size : TxId → UInt64) (remaining : UInt64) (candidates : List TxId) :
    selectLoop size true remaining candidates <+: candidates ∧
      totalSize size (selectLoop size true remaining candidates) ≤ remaining.toNat := by
  induction candidates generalizing remaining with
  | nil => exact ⟨List.prefix_refl _, Nat.zero_le _⟩
  | cons txid rest ih =>
    unfold selectLoop
    split
    next hfits =>
      obtain ⟨hfront, hrest⟩ := ih (saturatingSub remaining (size txid))
      refine ⟨List.cons_prefix_cons.mpr ⟨rfl, hfront⟩, ?_⟩
      simp [totalSize, UInt64.le_iff_toNat_le, toNat_saturatingSub] at hfits hrest ⊢
      omega
    next => exact ⟨List.nil_prefix, Nat.zero_le _⟩

/-- **Requests keep to the budgets and never stall.**  What both budgets admit is a front part of
the candidates, the others are counted as deferred, the first one is always admitted, and only that
one may exceed a budget. -/
theorem admitted_within_budgets (candidates : List TxId) (size : TxId → UInt64)
    (countRemaining : Nat) (budgetRemaining : UInt64) :
    let clamped := clampToCountBudget candidates countRemaining
    let selected := selectWithinByteBudget clamped.1 size budgetRemaining
    selected.1 <+: candidates ∧ selected.1.length + clamped.2 + selected.2 = candidates.length ∧
      selected.1.length ≤ max countRemaining 1 ∧
      ∀ first ∈ candidates.head?, first ∈ selected.1 ∧
        totalSize size selected.1 ≤ max budgetRemaining.toNat (size first).toNat := by
  cases candidates with
  | nil => simp [selectWithinByteBudget, clampToCountBudget, selectLoop]
  | cons first rest =>
    obtain ⟨count, hcount⟩ := Nat.exists_eq_add_one_of_ne_zero
      (show min (max countRemaining 1) (rest.length + 1) ≠ 0 by omega)
    -- the first candidate passes both budgets, and the loop goes on with the others
    have hclamped : clampToCountBudget (first :: rest) countRemaining =
        (first :: rest.take count, rest.length - count) := by
      simp [clampToCountBudget, hcount]
    obtain ⟨hfront, hfits⟩ := selectLoop_spec size (saturatingSub budgetRemaining (size first))
      (rest.take count)
    have hlength := List.length_take ▸ hfront.length_le
    rw [toNat_saturatingSub] at hfits
    simp only [hclamped, selectWithinByteBudget, selectLoop, Bool.not_false, true_or, if_true,
      List.length_cons, List.length_take]
    refine ⟨List.cons_prefix_cons.mpr ⟨rfl, hfront.trans (List.take_prefix _ _)⟩, by omega,
      by omega, ?_⟩
    simp [totalSize] at hfits ⊢
    omega

/-! ## Sessions -/

/-- Where a session is between two calls. -/
inductive SessionPhase where
  /-- Waiting for advertised transaction ids. -/
  | collecting
  /-- `filter_advertised` has returned the transactions to fetch. -/
  | filtered (sizes : KeyedMap TxId SizeInBytes) (toFetch : List TxId)
  /-- Waiting for the bodies of transactions marked in flight. -/
  | fetching (toRequest : List TxId)

structure Session (Peer : Type) where
  peer : Peer
  phase : SessionPhase

/-- The shared state and every live session. -/
structure ServerState (SessionId Peer : Type) where
  tx : TxState Peer
  sessions : SessionId → Option (Session Peer)

/-- One call into the shared state. -/
inductive ServerAction (SessionId Peer : Type) where
  | connect (id : SessionId) (peer : Peer)
  | filterAdvertised (id : SessionId) (advertised : List (TxId × SizeInBytes))
  | markInFlight (id : SessionId) (admitted : List TxId)
  | markReceived (id : SessionId)
  | markNotFound (id : SessionId)
  | unregister (id : SessionId)
  | markConfirmed (txids : List TxId)

variable {SessionId Peer : Type} [DecidableEq SessionId] [DecidableEq Peer]

namespace ServerState

variable (state : ServerState SessionId Peer)

def setSession (id : SessionId) (tx : TxState Peer) (session : Option (Session Peer)) :
    ServerState SessionId Peer where
  tx := tx
  sessions := Function.update state.sessions id session

/-- The sizes of an advertisement; a later entry for the same id wins. -/
def advertisedSizes (advertised : List (TxId × SizeInBytes)) : KeyedMap TxId SizeInBytes :=
  advertised.foldl (fun sizes item => sizes.insert item.1 item.2) ∅

/-- Pair transactions with their advertised sizes, 0 when the peer gave none. -/
def sized (sizes : KeyedMap TxId SizeInBytes) (txids : List TxId) : List (TxId × SizeInBytes) :=
  txids.map fun txid => (txid, (sizes.lookup txid).getD 0)

/-- The calls the code can make next. -/
def canCall : ServerAction SessionId Peer → Bool
  | .connect id _ => (state.sessions id).isNone
  | .filterAdvertised id _ =>
    match state.sessions id with
    | some { phase := .collecting, .. } => true
    | _ => false
  | .markInFlight id admitted =>
    match state.sessions id with
    | some { phase := .filtered _ toFetch, .. } => admitted.isPrefixOf toFetch
    | _ => false
  | .markReceived id | .markNotFound id =>
    match state.sessions id with
    | some { phase := .fetching _, .. } => true
    | _ => false
  | .unregister id =>
    match state.sessions id with
    | some { phase := .collecting, .. } => true
    | some { phase := .fetching _, .. } => true
    | _ => false
  | .markConfirmed _ => true

/-- Perform one call. -/
def step : ServerAction SessionId Peer → ServerState SessionId Peer
  | .connect id peer =>
    state.setSession id (state.tx.registerPeer peer) (some { peer, phase := .collecting })
  | .filterAdvertised id advertised =>
    match state.sessions id with
    | some { peer, phase := .collecting } =>
      let outcome := state.tx.filterAdvertised peer (advertised.map Prod.fst)
      state.setSession id outcome.2 (some
        { peer
          phase :=
            if outcome.1.toFetch = [] then .collecting
            else .filtered (advertisedSizes advertised) outcome.1.toFetch })
    | _ => state
  | .markInFlight id admitted =>
    match state.sessions id with
    | some { peer, phase := .filtered sizes _ } =>
      state.setSession id (state.tx.markInFlightSized peer (sized sizes admitted))
        (some { peer, phase := .fetching admitted })
    | _ => state
  | .markReceived id =>
    match state.sessions id with
    | some { peer, phase := .fetching toRequest } =>
      state.setSession id (state.tx.markReceived peer toRequest)
        (some { peer, phase := .collecting })
    | _ => state
  | .markNotFound id =>
    match state.sessions id with
    | some { peer, phase := .fetching toRequest } =>
      state.setSession id (state.tx.markNotFound peer toRequest)
        (some { peer, phase := .collecting })
    | _ => state
  | .unregister id =>
    match state.sessions id with
    | some { peer, .. } => state.setSession id (state.tx.unregisterPeer peer) none
    | none => state
  | .markConfirmed txids => { state with tx := state.tx.markConfirmed txids }

/-- What no call checks: a registered peer's session marks or finishes a transaction only if
no other peer has it in flight. -/
def Guarded : ServerAction SessionId Peer → Prop
  | .markInFlight id admitted =>
    match state.sessions id with
    | some { peer, phase := .filtered _ _ } =>
      (state.tx.peers.lookup peer).isSome →
        ∀ txid ∈ admitted, ∀ other, other ≠ peer → txid ∉ state.tx.inFlightOf other
    | _ => True
  | .markReceived id | .markNotFound id =>
    match state.sessions id with
    | some { peer, phase := .fetching toRequest } =>
      (state.tx.peers.lookup peer).isSome →
        ∀ txid ∈ toRequest, ∀ other, other ≠ peer → txid ∉ state.tx.inFlightOf other
    | _ => True
  | _ => True

end ServerState

/-- Sessions over one shared state that starts empty. -/
def serverSystem (knownCapacity : Nat) :
    TransitionSystem (ServerState SessionId Peer) (ServerAction SessionId Peer) where
  start := { tx := TxState.new knownCapacity, sessions := fun _ => none }
  enabled := fun state action => state.canCall action
  step := ServerState.step

/-- Each transaction is being fetched from at most one peer, and the global set is the union of
the peers' sets. -/
def FetchedOnce (state : ServerState SessionId Peer) : Prop :=
  (∀ left right txid, txid ∈ state.tx.inFlightOf left → txid ∈ state.tx.inFlightOf right →
    left = right) ∧
  ∀ txid, txid ∈ state.tx.globalInFlight ↔ ∃ peer, txid ∈ state.tx.inFlightOf peer

omit [DecidableEq SessionId] in
theorem fetchedOnce_iff_coherent (state : ServerState SessionId Peer) :
    FetchedOnce state ↔ state.tx.holdings.Coherent := by
  constructor
  · rintro ⟨hunique, hglobal⟩
    refine ⟨hunique, ?_⟩
    ext txid
    simpa [TxState.holdings] using hglobal txid
  · intro hcoherent
    exact ⟨hcoherent.unique, hcoherent.mem_index_iff⟩

/-! ## One call -/

/-- Marking in flight keeps the property exactly when its guard holds. -/
theorem coherent_markInFlightSized_iff {tx : TxState Peer} (hcoherent : tx.holdings.Coherent)
    (peer : Peer) (sizes : KeyedMap TxId SizeInBytes) (admitted : List TxId) :
    (tx.markInFlightSized peer (ServerState.sized sizes admitted)).holdings.Coherent ↔
      ((tx.peers.lookup peer).isSome →
        ∀ txid ∈ admitted, ∀ other, other ≠ peer → txid ∉ tx.inFlightOf other) := by
  cases hlookup : tx.peers.lookup peer with
  | none => simp [TxState.markInFlightSized, hlookup, hcoherent]
  | some entry =>
    rw [TxState.holdings_markInFlightSized hlookup, Holdings.coherent_claim_iff hcoherent]
    simp [ServerState.sized, Holdings.HeldElsewhere, TxState.holdings]

/-- Finishing fetches keeps the property exactly when its guard holds. -/
theorem coherent_releaseInFlight_iff {tx : TxState Peer} (hcoherent : tx.holdings.Coherent)
    (peer : Peer) (txids : List TxId) :
    (tx.releaseInFlight peer txids).holdings.Coherent ↔
      ((tx.peers.lookup peer).isSome →
        ∀ txid ∈ txids, ∀ other, other ≠ peer → txid ∉ tx.inFlightOf other) := by
  cases hlookup : tx.peers.lookup peer with
  | none => simp [TxState.releaseInFlight, hlookup, hcoherent]
  | some entry =>
    rw [TxState.holdings_releaseInFlight hlookup, Holdings.coherent_release_iff hcoherent]
    simp [Holdings.HeldElsewhere, TxState.holdings]

theorem fetchedOnce_setSession_iff (state : ServerState SessionId Peer) (id : SessionId)
    (tx : TxState Peer) (session : Option (Session Peer)) :
    FetchedOnce (state.setSession id tx session) ↔ tx.holdings.Coherent :=
  fetchedOnce_iff_coherent _

/-- One call out of a good state keeps the property exactly when it is guarded. -/
theorem fetchedOnce_step_iff {state : ServerState SessionId Peer} (hstate : FetchedOnce state)
    (action : ServerAction SessionId Peer) :
    FetchedOnce (state.step action) ↔ state.Guarded action := by
  have hcoherent := (fetchedOnce_iff_coherent state).mp hstate
  cases action with
  | connect id peer =>
    simp only [ServerState.step, ServerState.Guarded, iff_true, fetchedOnce_setSession_iff,
      TxState.holdings_registerPeer]
    exact hcoherent
  | filterAdvertised id advertised =>
    simp only [ServerState.step, ServerState.Guarded, iff_true]
    split
    · rw [fetchedOnce_setSession_iff, TxState.holdings_filterAdvertised]
      exact hcoherent
    · exact hstate
  | markInFlight id admitted =>
    simp only [ServerState.step, ServerState.Guarded]
    split
    · rw [fetchedOnce_setSession_iff]
      exact coherent_markInFlightSized_iff hcoherent _ _ _
    · exact iff_true_intro hstate
  | markReceived id =>
    simp only [ServerState.step, ServerState.Guarded]
    split
    · rw [fetchedOnce_setSession_iff, TxState.markReceived, TxState.holdings_foldl_insertKnown]
      exact coherent_releaseInFlight_iff hcoherent _ _
    · exact iff_true_intro hstate
  | markNotFound id =>
    simp only [ServerState.step, ServerState.Guarded]
    split
    · rw [fetchedOnce_setSession_iff]
      exact coherent_releaseInFlight_iff hcoherent _ _
    · exact iff_true_intro hstate
  | unregister id =>
    simp only [ServerState.step, ServerState.Guarded, iff_true]
    split
    · rw [fetchedOnce_setSession_iff, TxState.holdings_unregisterPeer]
      exact Holdings.coherent_drop hcoherent _
    · exact hstate
  | markConfirmed txids =>
    simp only [ServerState.step, ServerState.Guarded, iff_true, fetchedOnce_iff_coherent,
      TxState.holdings_markConfirmed]
    exact Holdings.coherent_purge hcoherent _

/-! ## Whole runs -/

theorem fetchedOnce_start (knownCapacity : Nat) :
    FetchedOnce
      ((serverSystem knownCapacity :
        TransitionSystem (ServerState SessionId Peer) (ServerAction SessionId Peer)).start) := by
  constructor
  · intro left right txid hleft
    exact absurd hleft (Finset.notMem_empty txid)
  · intro txid
    refine iff_of_false (Finset.notMem_empty txid) ?_
    rintro ⟨peer, hpeer⟩
    exact Finset.notMem_empty txid hpeer

/-- **No transaction is fetched from two peers at once.**  A legal interleaving of sessions has
the property in every state it visits exactly when no session, in the state in which it does so,
marks in flight or finishes a transaction that another peer has in flight. -/
theorem fetchedOnce_iff_guarded (knownCapacity : Nat)
    {actions : List (ServerAction SessionId Peer)}
    (hlegal : (serverSystem knownCapacity).Legal actions) :
    (∀ done, done <+: actions → FetchedOnce ((serverSystem knownCapacity).run done)) ↔
      ∀ done action, done ++ [action] <+: actions →
        ((serverSystem knownCapacity).run done).Guarded action :=
  (serverSystem knownCapacity).invariant_iff_guarded (fun _ => True) FetchedOnce
    ServerState.Guarded trivial (fetchedOnce_start knownCapacity)
    (fun _ _ _ _ => trivial)
    (fun _ action _ _ hstate => fetchedOnce_step_iff hstate action) hlegal

/-- Two sessions whose filters both run before either marks. -/
def filterRace : List (ServerAction Nat Nat) :=
  [.connect 0 10, .connect 1 11,
    .filterAdvertised 0 [(7, 100)], .filterAdvertised 1 [(7, 100)],
    .markInFlight 0 [7], .markInFlight 1 [7]]

instance (state : ServerState SessionId Peer) (action : ServerAction SessionId Peer)
    (knownCapacity : Nat) : Decidable ((serverSystem knownCapacity).enabled state action) :=
  inferInstanceAs (Decidable (state.canCall action = true))

theorem filterRace_legal :
    (serverSystem 16 : TransitionSystem (ServerState Nat Nat) _).Legal filterRace :=
  TransitionSystem.legal_of_legalFrom _ (by decide +kernel)

theorem filterRace_fetchedOnce_iff :
    (serverSystem 16 : TransitionSystem (ServerState Nat Nat) _).Legal filterRace ∧
      ((∀ done, done <+: filterRace → FetchedOnce ((serverSystem 16).run done)) ↔
        ∀ done action, done ++ [action] <+: filterRace →
          ((serverSystem 16).run done).Guarded action) :=
  ⟨filterRace_legal, fetchedOnce_iff_guarded 16 filterRace_legal⟩

/-- After `filterRace` the transaction is in flight from both peers. -/
theorem filterRace_fetched_twice :
    (serverSystem 16 : TransitionSystem (ServerState Nat Nat) _).Legal filterRace ∧
      ¬ FetchedOnce ((serverSystem 16).run filterRace) := by
  refine ⟨filterRace_legal, fun honce => ?_⟩
  have hfirst : (7 : TxId) ∈ ((serverSystem 16).run filterRace).tx.inFlightOf 10 := by
    decide +kernel
  have hsecond : (7 : TxId) ∈ ((serverSystem 16).run filterRace).tx.inFlightOf 11 := by
    decide +kernel
  exact absurd (honce.1 10 11 7 hfirst hsecond) (by decide)

end Yggdrasil.Node.NtnServer
