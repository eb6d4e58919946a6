import Yggdrasil.Ledger.Types
import Yggdrasil.Library.Runs

/-!
# Diffusion pipelining

`diffusion_pipelining/identity.rs` and `diffusion_pipelining/state.rs` of the consensus crate.  A
header may be announced before its body is validated; one whose body turns out invalid is a trap.
The criterion state keeps the height of the last trap and who set traps at that height.  It is
consulted when a header is announced (`try_set_tentative`) and written when the trap is found
(`clear_trap`), and other announcements may come between the two.

Of a header body only the fields that the view reads are kept, and key hashing is a given function.
The feature flag is read by no function of these files and is left out.
-/

namespace Yggdrasil.Consensus

open Ledger Library

/-- A block issuer: the hash of the cold key and the number of the operational certificate. -/
structure HotIdentity where
  issuerHash : Hash28
  issueNo : UInt64
deriving DecidableEq, Repr

/-- What the views read of a header body. -/
structure HeaderBody where
  blockNumber : BlockNo
  issuerVkey : Hash32
  opcertSequence : UInt64
deriving DecidableEq, Repr

def HotIdentity.new (hashBytes224 : Bytes → Hash28) (coldVkey : Hash32) (opcertSequence : UInt64) :
    HotIdentity where
  issuerHash := hashBytes224 (bytesOfDigest 32 coldVkey)
  issueNo := opcertSequence

structure TentativeHeaderView where
  blockNo : BlockNo
  identity : HotIdentity
deriving DecidableEq, Repr

def TentativeHeaderView.fromHeaderBody (hashBytes224 : Bytes → Hash28) (header : HeaderBody) :
    TentativeHeaderView where
  blockNo := header.blockNumber
  identity := .new hashBytes224 header.issuerVkey header.opcertSequence

/-- The height of the last trap, and the issuers of the traps at that height. -/
structure TentativeHeaderState where
  lastTrapBlockNo : Option BlockNo
  badIdentities : Finset HotIdentity
deriving DecidableEq

namespace TentativeHeaderState

def initial : TentativeHeaderState where
  lastTrapBlockNo := none
  badIdentities := ∅

/-- The criterion: `none` if the header must not be pipelined, otherwise the state to adopt should
the header turn out to be a trap. -/
def applyTentativeHeaderView (state : TentativeHeaderState) (view : TentativeHeaderView) :
    Option TentativeHeaderState :=
  match state.lastTrapBlockNo with
  | some last =>
    match compare view.blockNo last with
    | .lt => none
    | .eq =>
      if view.identity ∈ state.badIdentities then none
      else some {
        lastTrapBlockNo := state.lastTrapBlockNo
        badIdentities := insert view.identity state.badIdentities }
    | .gt => some { lastTrapBlockNo := some view.blockNo, badIdentities := {view.identity} }
  | none => some { lastTrapBlockNo := some view.blockNo, badIdentities := {view.identity} }

end TentativeHeaderState

/-- A header that waits for the validation of its body. -/
structure TentativeHeader where
  blockNo : BlockNo
  slot : SlotNo
  headerHash : HeaderHash
  view : TentativeHeaderView
  rawHeader : Bytes

inductive PipeliningEvent where
  | setTentativeHeader (blockNo : BlockNo) (slot : SlotNo) (headerHash : HeaderHash)
  | tentativeHeaderAdopted (blockNo : BlockNo) (slot : SlotNo) (headerHash : HeaderHash)
  | trapTentativeHeader (blockNo : BlockNo) (slot : SlotNo) (headerHash : HeaderHash)
deriving DecidableEq, Repr

structure TentativeState where
  criterionState : TentativeHeaderState
  tentativeHeader : Option TentativeHeader

namespace TentativeState

def initial : TentativeState where
  criterionState := .initial
  tentativeHeader := none

def trySetTentative (hashBytes224 : Bytes → Hash28) (state : TentativeState) (header : HeaderBody)
    (slot : SlotNo) (headerHash : HeaderHash) (rawHeader : Bytes) :
    Option PipeliningEvent × TentativeState :=
  let view := TentativeHeaderView.fromHeaderBody hashBytes224 header
  match state.criterionState.applyTentativeHeaderView view with
  | none => (none, state)
  | some _ =>
    (some (.setTentativeHeader header.blockNumber slot headerHash),
      { state with
        tentativeHeader := some {
          blockNo := header.blockNumber, slot, headerHash, view, rawHeader } })

def clearAdopted (state : TentativeState) : Option PipeliningEvent × TentativeState :=
  match state.tentativeHeader with
  | none => (none, state)
  | some header =>
    (some (.tentativeHeaderAdopted header.blockNo header.slot header.headerHash),
      { state with tentativeHeader := none })

def clearTrap (state : TentativeState) : Option PipeliningEvent × TentativeState :=
  match state.tentativeHeader with
  | none => (none, state)
  | some header =>
    (some (.trapTentativeHeader header.blockNo header.slot header.headerHash),
      { criterionState :=
          (state.criterionState.applyTentativeHeaderView header.view).getD state.criterionState
        tentativeHeader := none })

end TentativeState

/-- What one upstream peer has been seen doing. -/
structure PeerPipeliningState where
  state : TentativeHeaderState

def PeerPipeliningState.initial : PeerPipeliningState where
  state := .initial

/-- Whether an invalid block of the peer is consistent with the criterion. -/
def PeerPipeliningState.checkPeerTrap (peer : PeerPipeliningState) (view : TentativeHeaderView) :
    Bool × PeerPipeliningState :=
  match peer.state.applyTentativeHeaderView view with
  | some next => (true, { state := next })
  | none => (false, peer)

/-! ## What the criterion state remembers -/

/-- A height with an issuer who set a trap there. -/
abbrev Trap := BlockNo × HotIdentity

namespace TentativeHeaderState

/-- The state names this trap. -/
def Records (state : TentativeHeaderState) (trap : Trap) : Prop :=
  state.lastTrapBlockNo = some trap.1 ∧ trap.2 ∈ state.badIdentities

/-- The traps so far: none twice, at heights that never decrease, and each one either below the
state's height or named by the state. -/
structure Remembers (state : TentativeHeaderState) (traps : List Trap) : Prop where
  distinct : traps.Nodup
  ascending : traps.Pairwise fun earlier later => earlier.1 ≤ later.1
  covered : ∀ trap ∈ traps, state.Records trap ∨
    ∃ last, state.lastTrapBlockNo = some last ∧ trap.1 < last

theorem initial_remembers : initial.Remembers [] := ⟨.nil, .nil, by simp⟩

/-- An accepted view is recorded, and what was recorded before stays recorded or is left behind. -/
theorem applyTentativeHeaderView_some {state next : TentativeHeaderState}
    {view : TentativeHeaderView} (happly : state.applyTentativeHeaderView view = some next) :
    next.Records (view.blockNo, view.identity) ∧
      ((∀ last, state.lastTrapBlockNo = some last → last < view.blockNo) ∨
        state.lastTrapBlockNo = some view.blockNo ∧ view.identity ∉ state.badIdentities ∧
          ∀ identity ∈ state.badIdentities, identity ∈ next.badIdentities) := by
  unfold applyTentativeHeaderView at happly
  cases hlast : state.lastTrapBlockNo with
  | none =>
    simp only [hlast, Option.some.injEq] at happly
    subst happly
    exact ⟨⟨rfl, by simp⟩, .inl (by simp)⟩
  | some last =>
    simp only [hlast] at happly
    cases horder : compare view.blockNo last with
    | lt => simp [horder] at happly
    | eq =>
      have hsame : view.blockNo = last := Std.LawfulEqOrd.eq_of_compare horder
      by_cases hbad : view.identity ∈ state.badIdentities
      · simp [horder, hbad] at happly
      · simp only [horder, if_neg hbad, Option.some.injEq] at happly
        subst happly hsame
        refine ⟨⟨rfl, Finset.mem_insert_self _ _⟩, .inr ⟨rfl, hbad, ?_⟩⟩
        exact fun identity hidentity => Finset.mem_insert_of_mem hidentity
    | gt =>
      have habove : last < view.blockNo := Std.compare_eq_gt.mp horder
      simp only [horder, Option.some.injEq] at happly
      subst happly
      refine ⟨⟨rfl, by simp⟩, .inl ?_⟩
      intro other hother
      cases hother
      exact habove

/-- The step lemma: an accepted view extends the traps that the state remembers. -/
theorem Remembers.extend {state next : TentativeHeaderState} {view : TentativeHeaderView}
    {traps : List Trap} (hremembers : state.Remembers traps)
    (happly : state.applyTentativeHeaderView view = some next) :
    next.Remembers (traps ++ [(view.blockNo, view.identity)]) := by
  obtain ⟨hrecorded, hbefore⟩ := applyTentativeHeaderView_some happly
  -- an old trap is below the new height, or at it and by somebody else
  have hold : ∀ trap ∈ traps, trap.1 < view.blockNo ∨
      trap.1 = view.blockNo ∧ trap.2 ≠ view.identity ∧ trap.2 ∈ next.badIdentities := by
    intro trap htrap
    rcases hremembers.covered trap htrap with ⟨hheight, hbad⟩ | ⟨last, hlast, hbelow⟩
    · rcases hbefore with habove | ⟨hsame, hfresh, hkept⟩
      · exact .inl (habove _ hheight)
      · have hequal : trap.1 = view.blockNo := Option.some.inj (hheight.symm.trans hsame)
        exact .inr ⟨hequal, fun hidentity => hfresh (hidentity ▸ hbad), hkept _ hbad⟩
    · rcases hbefore with habove | ⟨hsame, -, -⟩
      · exact .inl (UInt64.lt_trans hbelow (habove _ hlast))
      · exact .inl (Option.some.inj (hlast.symm.trans hsame) ▸ hbelow)
  refine ⟨?_, ?_, ?_⟩
  · refine List.nodup_append.mpr ⟨hremembers.distinct, List.nodup_singleton _, ?_⟩
    rintro trap htrap other hother rfl
    obtain rfl := List.mem_singleton.mp hother
    rcases hold _ htrap with hbelow | ⟨-, hother, -⟩
    · exact UInt64.lt_irrefl _ hbelow
    · exact hother rfl
  · refine List.pairwise_append.mpr ⟨hremembers.ascending, List.pairwise_singleton _ _, ?_⟩
    intro trap htrap other hother
    obtain rfl := List.mem_singleton.mp hother
    rcases hold _ htrap with hbelow | ⟨hequal, -⟩
    · exact UInt64.le_of_lt hbelow
    · exact UInt64.le_of_eq hequal
  · intro trap htrap
    rcases List.mem_append.mp htrap with hearlier | hnew
    · rcases hold _ hearlier with hbelow | ⟨hequal, -, hbad⟩
      · exact .inr ⟨_, hrecorded.1, hbelow⟩
      · exact .inl ⟨hequal ▸ hrecorded.1, hbad⟩
    · obtain rfl := List.mem_singleton.mp hnew
      exact .inl hrecorded

end TentativeHeaderState

/-! ## Runs of the node's own announcements -/

/-- One call on the tentative state. -/
inductive PipeliningCall where
  | trySetTentative (header : HeaderBody) (slot : SlotNo) (headerHash : HeaderHash)
      (rawHeader : Bytes)
  | clearAdopted
  | clearTrap

/-- The tentative state with the traps found so far, the latest one last. -/
structure TrapLog where
  state : TentativeState
  traps : List Trap

/-- Height and issuer of the header that waits for its body. -/
def TentativeState.pendingTrap (state : TentativeState) : Option Trap :=
  state.tentativeHeader.map fun header => (header.blockNo, header.view.identity)

/-- A call of `clear_trap` that returns an event adds the header it clears to the log. -/
def TrapLog.call (hashBytes224 : Bytes → Hash28) (log : TrapLog) : PipeliningCall → TrapLog
  | .trySetTentative header slot headerHash rawHeader =>
    { log with
      state := (log.state.trySetTentative hashBytes224 header slot headerHash rawHeader).2 }
  | .clearAdopted => { log with state := log.state.clearAdopted.2 }
  | .clearTrap =>
    match log.state.clearTrap with
    | (some _, next) => { state := next, traps := log.traps ++ log.state.pendingTrap.toList }
    | (none, next) => { log with state := next }

def announcements (hashBytes224 : Bytes → Hash28) : TransitionSystem TrapLog PipeliningCall where
  start := { state := .initial, traps := [] }
  enabled _ _ := True
  step := TrapLog.call hashBytes224

/-- The header that waits was accepted by the criterion state as it still is: nothing between its
announcement and the end of its validation writes that state. -/
structure TrapLog.Accounted (log : TrapLog) : Prop where
  remembers : log.state.criterionState.Remembers log.traps
  pending : ∀ header, log.state.tentativeHeader = some header →
    header.blockNo = header.view.blockNo ∧
      ∃ next, log.state.criterionState.applyTentativeHeaderView header.view = some next

theorem TrapLog.Accounted.call {log : TrapLog} (haccounted : log.Accounted)
    (hashBytes224 : Bytes → Hash28) (action : PipeliningCall) :
    (log.call hashBytes224 action).Accounted := by
  obtain ⟨hremembers, hpending⟩ := haccounted
  cases action with
  | trySetTentative header slot headerHash rawHeader =>
    simp only [TrapLog.call, TentativeState.trySetTentative]
    cases happly : log.state.criterionState.applyTentativeHeaderView
        (.fromHeaderBody hashBytes224 header) with
    | none => exact ⟨hremembers, hpending⟩
    | some next =>
      refine ⟨hremembers, ?_⟩
      intro waiting hwaiting
      obtain rfl := Option.some.inj hwaiting
      exact ⟨rfl, next, happly⟩
  | clearAdopted =>
    simp only [TrapLog.call, TentativeState.clearAdopted]
    cases hheader : log.state.tentativeHeader with
    | none => exact ⟨hremembers, hpending⟩
    | some header => exact ⟨hremembers, nofun⟩
  | clearTrap =>
    simp only [TrapLog.call, TentativeState.clearTrap]
    cases hheader : log.state.tentativeHeader with
    | none => exact ⟨hremembers, hpending⟩
    | some header =>
      obtain ⟨hheight, next, happly⟩ := hpending header hheader
      refine ⟨?_, nofun⟩
      simpa [TentativeState.pendingTrap, hheader, happly, hheight]
        using hremembers.extend happly

theorem announcements_accounted (hashBytes224 : Bytes → Hash28) (calls : List PipeliningCall) :
    ((announcements hashBytes224).run calls).Accounted :=
  (announcements hashBytes224).invariant_of_legal TrapLog.Accounted
    ⟨TentativeHeaderState.initial_remembers, nofun⟩
    (fun _ action _ haccounted => haccounted.call hashBytes224 action)
    (fun _ _ _ => trivial)

/-- A cleared trap is the waiting header, and the state afterwards names it. -/
theorem TrapLog.Accounted.clearTrap_records {log : TrapLog} (haccounted : log.Accounted)
    {event : PipeliningEvent} {next : TentativeState}
    (hclear : log.state.clearTrap = (some event, next)) :
    ∃ trap slot headerHash, log.state.pendingTrap = some trap ∧
      event = .trapTentativeHeader trap.1 slot headerHash ∧ next.criterionState.Records trap := by
  unfold TentativeState.clearTrap at hclear
  cases hheader : log.state.tentativeHeader with
  | none => simp [hheader] at hclear
  | some header =>
    obtain ⟨hheight, after, happly⟩ := haccounted.pending header hheader
    simp only [hheader, happly, Prod.mk.injEq, Option.some.injEq] at hclear
    obtain ⟨rfl, rfl⟩ := hclear
    refine ⟨(header.blockNo, header.view.identity), _, _, ?_, rfl, ?_⟩
    · simp [TentativeState.pendingTrap, hheader]
    · rw [hheight]
      exact (TentativeHeaderState.applyTentativeHeaderView_some happly).1

/-! ## Runs of one peer's invalid blocks -/

/-- The peer's state with the traps it was allowed, the latest one last. -/
structure PeerLog where
  peer : PeerPipeliningState
  accepted : List Trap

def PeerLog.check (log : PeerLog) (view : TentativeHeaderView) : PeerLog :=
  match log.peer.checkPeerTrap view with
  | (true, next) => { peer := next, accepted := log.accepted ++ [(view.blockNo, view.identity)] }
  | (false, next) => { log with peer := next }

def peerChecks : TransitionSystem PeerLog TentativeHeaderView where
  start := { peer := .initial, accepted := [] }
  enabled _ _ := True
  step := PeerLog.check

theorem peerChecks_remembers (views : List TentativeHeaderView) :
    (peerChecks.run views).peer.state.Remembers (peerChecks.run views).accepted := by
  refine peerChecks.invariant_of_legal (fun log => log.peer.state.Remembers log.accepted)
    TentativeHeaderState.initial_remembers ?_ (fun _ _ _ => trivial)
  intro log view _ hremembers
  simp only [peerChecks, PeerLog.check, PeerPipeliningState.checkPeerTrap]
  cases happly : log.peer.state.applyTentativeHeaderView view with
  | none => exact hremembers
  | some next => exact hremembers.extend happly

theorem checkPeerTrap_records {peer next : PeerPipeliningState} {view : TentativeHeaderView}
    (hcheck : peer.checkPeerTrap view = (true, next)) :
    next.state.Records (view.blockNo, view.identity) := by
  unfold PeerPipeliningState.checkPeerTrap at hcheck
  cases happly : peer.state.applyTentativeHeaderView view with
  | none => simp [happly] at hcheck
  | some after =>
    simp only [happly, Prod.mk.injEq, true_and] at hcheck
    subst hcheck
    exact (TentativeHeaderState.applyTentativeHeaderView_some happly).1

/-- **No issuer traps the node twice at one height.**  Over every run of calls the traps found are
pairwise distinct, their heights never decrease, and whenever `clear_trap` returns an event the
criterion state names the trap; and the same of the invalid blocks that one peer is allowed. -/
theorem traps_distinct_and_recorded (hashBytes224 : Bytes → Hash28) :
    (∀ calls : List PipeliningCall,
      let log := (announcements hashBytes224).run calls
      log.traps.Nodup ∧ log.traps.Pairwise (fun earlier later => earlier.1 ≤ later.1) ∧
        ∀ event next, log.state.clearTrap = (some event, next) →
          ∃ trap slot headerHash, log.state.pendingTrap = some trap ∧
            event = .trapTentativeHeader trap.1 slot headerHash ∧
            next.criterionState.Records trap) ∧
    (∀ views : List TentativeHeaderView,
      let log := peerChecks.run views
      log.accepted.Nodup ∧ log.accepted.Pairwise (fun earlier later => earlier.1 ≤ later.1) ∧
        ∀ view next, log.peer.checkPeerTrap view = (true, next) →
          next.state.Records (view.blockNo, view.identity)) := by
  refine ⟨fun calls => ?_, fun views => ?_⟩
  · have haccounted := announcements_accounted hashBytes224 calls
    exact ⟨haccounted.remembers.distinct, haccounted.remembers.ascending,
      fun _ _ hclear => haccounted.clearTrap_records hclear⟩
  · have hremembers := peerChecks_remembers views
    exact ⟨hremembers.distinct, hremembers.ascending, fun _ _ hcheck => checkPeerTrap_records hcheck⟩

end Yggdrasil.Consensus
