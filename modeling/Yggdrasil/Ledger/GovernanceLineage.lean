import Yggdrasil.Ledger.Proposals
import Yggdrasil.Library.FallibleLoop
import Yggdrasil.Library.ParentLinks
import Yggdrasil.Library.Runs

/-!
# The lineage of governance actions

Every pending action of a lineage names the action before it: the last one that was enacted for
its purpose, or another pending action of the purpose.  Proposals are checked for that when they
are staged; enactment moves the root of a purpose and drops what no longer builds on it; an action
that expires takes everything that builds on it along.

`lineage_run` says that the pending actions of each purpose stay a forest on the enacted root, in
every state of a run of accepted proposals and epoch boundaries, as long as every proposal gets an
identifier that is not pending.  The identifier has 16 bits for the place of a proposal in its
transaction: with more than 65536 proposals in one transaction the identifiers begin anew, and
`crowdedTx_closes_cycle` has a cycle.
-/

namespace Yggdrasil.Ledger

open Library

/-- The pending actions of a purpose, each with the action it builds on. -/
def lineage (actions : Actions) (purpose : ConwayGovActionPurpose) : Links GovActionId :=
  fun id => (actions.lookup id).bind fun action =>
    if conwayGovActionPurpose action.proposal.govAction = purpose then
      some (conwayProposalPrevActionId action.proposal.govAction)
    else none

/-- The actions of every purpose form a forest on the enacted root. -/
def Rooted (actions : Actions) (enact : EnactState) : Prop :=
  ∀ purpose, Forest (lineage actions purpose) (enact.enactedRoot purpose)

variable {context : ProposalContext} {id : GovActionId} {actions : Actions}

theorem lineage_of_lookup {action : ActionState} (hlookup : actions.lookup id = some action)
    (purpose : ConwayGovActionPurpose) :
    lineage actions purpose id =
      if conwayGovActionPurpose action.proposal.govAction = purpose then
        some (conwayProposalPrevActionId action.proposal.govAction)
      else none := by
  rw [lineage, hlookup, Option.bind_some]

theorem lineage_congr {other : Actions} (hsame : actions.lookup id = other.lookup id)
    (purpose : ConwayGovActionPurpose) : lineage actions purpose id = lineage other purpose id := by
  rw [lineage, lineage, hsame]

theorem lineage_of_absent (habsent : actions.lookup id = none) (purpose : ConwayGovActionPurpose) :
    lineage actions purpose id = none := by
  rw [lineage, habsent, Option.bind_none]

variable {purpose : ConwayGovActionPurpose}

theorem lookup_of_lineage {before : Option GovActionId}
    (hlink : lineage actions purpose id = some before) :
    ∃ action, actions.lookup id = some action ∧
      conwayGovActionPurpose action.proposal.govAction = purpose ∧
      conwayProposalPrevActionId action.proposal.govAction = before := by
  obtain ⟨action, hlookup, hif⟩ := Option.bind_eq_some_iff.mp hlink
  split at hif
  · next hpurpose => exact ⟨action, hlookup, hpurpose, Option.some.inj hif⟩
  · cases hif

/-! ## Proposals -/

/-- A proposal that passes the check of its lineage builds on the root or on a pending action of
its purpose. -/
theorem parent_of_checkLineage {index : Nat} {action : Action}
    (hcheck : checkLineage context actions index action = .ok ()) :
    conwayProposalPrevActionId action = context.enact.enactedRoot (conwayGovActionPurpose action) ∨
      ∃ parent, conwayProposalPrevActionId action = some parent ∧
        (lineage actions (conwayGovActionPurpose action) parent).isSome := by
  unfold checkLineage at hcheck
  cases hprev : conwayProposalPrevActionId action with
  | none =>
    rw [hprev] at hcheck
    refine .inl ?_
    cases hpurpose : conwayGovActionPurpose action with
    | treasuryWithdrawals | info => rfl
    | parameterChange | hardFork | committee | constitution =>
      rw [hpurpose] at hcheck
      simp only [rejectIf_eq_ok, Option.not_isSome_iff_eq_none] at hcheck
      exact hcheck.symm
  | some parent =>
    rw [hprev] at hcheck
    obtain ⟨⟨⟩, -, hcheck⟩ := bind_eq_ok.mp hcheck
    split at hcheck
    · next hroot => exact .inl hroot.symm
    · refine .inr ⟨parent, rfl, ?_⟩
      rw [rejectIf_eq_ok] at hcheck
      cases hlookup : actions.lookup parent with
      | none =>
        rw [hlookup] at hcheck
        exact absurd rfl hcheck
      | some state =>
        rw [hlookup] at hcheck
        rw [lineage_of_lookup hlookup, if_pos (by simpa using hcheck), Option.isSome_some]

theorem lineage_of_checkProposal {index : Nat} {proposal : Proposal}
    (hcheck : checkProposal context actions index proposal = .ok ()) :
    checkLineage context actions index proposal.govAction = .ok () := by
  obtain ⟨⟨⟩, -, hcheck⟩ := bind_eq_ok.mp hcheck
  obtain ⟨⟨⟩, -, hcheck⟩ := bind_eq_ok.mp hcheck
  obtain ⟨⟨⟩, hlineage, -⟩ := bind_eq_ok.mp hcheck
  exact hlineage

variable {enact : EnactState}

theorem Rooted.insert (hrooted : Rooted actions enact) {state : ActionState}
    (hnew : actions.lookup id = none)
    (hparent : conwayProposalPrevActionId state.proposal.govAction =
        enact.enactedRoot (conwayGovActionPurpose state.proposal.govAction) ∨
      ∃ parent, conwayProposalPrevActionId state.proposal.govAction = some parent ∧
        (lineage actions (conwayGovActionPurpose state.proposal.govAction) parent).isSome) :
    Rooted (actions.insert id state) enact := by
  intro purpose
  have hothers : ∀ item, item ≠ id →
      lineage (actions.insert id state) purpose item = lineage actions purpose item :=
    fun item hne => lineage_congr (AList.lookup_insert_ne hne) purpose
  have hlink := lineage_of_lookup (AList.lookup_insert (a := id) (b := state) actions) purpose
  by_cases hpurpose : conwayGovActionPurpose state.proposal.govAction = purpose
  · rw [if_pos hpurpose] at hlink
    rw [hpurpose] at hparent
    exact (hrooted purpose).insert (lineage_of_absent hnew purpose) hparent hlink hothers
  · rw [if_neg hpurpose] at hlink
    have hsame : lineage (actions.insert id state) purpose = lineage actions purpose := by
      funext item
      by_cases hitem : item = id
      · rw [hitem, hlink, lineage_of_absent hnew purpose]
      · exact hothers item hitem
    rw [hsame]
    exact hrooted purpose

/-- The identifier of a proposal by its place. -/
def proposalId (txId : TxId) (index : Nat) : GovActionId := ⟨txId, .ofNat index⟩

/-- The proposals get identifiers that are not pending, and each its own. -/
def NewIds (context : ProposalContext) (proposals : List Proposal) (actions : Actions) : Prop :=
  proposals.length ≤ 2 ^ 16 ∧
    ∀ index < proposals.length, actions.lookup (proposalId context.txId index) = none

theorem proposalId_inj {txId : TxId} {first second : Nat} (hfirst : first < 2 ^ 16)
    (hsecond : second < 2 ^ 16) (hsame : proposalId txId first = proposalId txId second) :
    first = second := by
  have hindex : UInt16.ofNat first = UInt16.ofNat second := congrArg GovActionId.govActionIndex hsame
  have hnat := congrArg UInt16.toNat hindex
  rw [UInt16.toNat_ofNat', UInt16.toNat_ofNat'] at hnat
  omega

/-- The loop over the proposals, from the place it has come to. -/
theorem rooted_stage (context : ProposalContext) (proposals : List Proposal) (start : Nat)
    {staged : Actions} (hrooted : Rooted actions context.enact)
    (hcount : start + proposals.length ≤ 2 ^ 16)
    (hnew : ∀ index, start ≤ index → index < start + proposals.length →
      actions.lookup (proposalId context.txId index) = none)
    (hrun : (proposals.zipIdx start).foldlM (fun actions proposal => do
      checkProposal context actions proposal.2 proposal.1
      return actions.insert ⟨context.txId, .ofNat proposal.2⟩
        (.newWithLifetime proposal.1 context.currentEpoch context.govActionLifetime)) actions =
      (.ok staged : Result Actions)) : Rooted staged context.enact := by
  induction proposals generalizing start actions with
  | nil =>
    cases hrun
    exact hrooted
  | cons proposal later ih =>
    rw [List.length_cons] at hcount hnew
    rw [List.zipIdx_cons, List.foldlM_cons] at hrun
    obtain ⟨next, hstep, hlater⟩ := bind_eq_ok.mp hrun
    obtain ⟨⟨⟩, hcheck, hinsert⟩ := bind_eq_ok.mp hstep
    cases hinsert
    have hparent := parent_of_checkLineage (lineage_of_checkProposal hcheck)
    refine ih (start + 1) ?_ (by omega) ?_ hlater
    · exact hrooted.insert (hnew start le_rfl (by omega)) hparent
    · intro index hstart hindex
      have hne : proposalId context.txId index ≠ ⟨context.txId, .ofNat start⟩ := by
        intro hsame
        have := proposalId_inj (by omega) (by omega) hsame
        omega
      rw [AList.lookup_insert_ne hne]
      exact hnew index (by omega) (by omega)

theorem rooted_validateConwayProposals {proposals : List Proposal} {staged : Actions}
    (hrooted : Rooted actions context.enact) (hnew : NewIds context proposals actions)
    (hrun : validateConwayProposals context proposals actions = .ok staged) :
    Rooted staged context.enact :=
  rooted_stage context proposals 0 hrooted (by simpa using hnew.1)
    (fun index _ hindex => hnew.2 index (by simpa using hindex)) hrun

/-! ## Removal -/

theorem removeActions_eq_eraseAll (ids : List GovActionId) (actions : Actions) :
    (removeActions ids actions).1 = KeyedMap.eraseAll ids actions := by
  refine (List.foldl_hom Prod.fst fun removed id => ?_).symm
  unfold removeAction
  cases hlookup : removed.1.lookup id with
  | none =>
    -- nothing to erase
    rw [AList.lookup_eq_none] at hlookup
    exact AList.ext (List.kerase_of_notMem_keys hlookup)
  | some action => rfl

theorem lookup_removeActions (ids : List GovActionId) (actions : Actions) (id : GovActionId) :
    (removeActions ids actions).1.lookup id = if id ∈ ids then none else actions.lookup id := by
  rw [removeActions_eq_eraseAll, KeyedMap.lookup_eraseAll]

/-- Removing a set that contains what builds on it keeps the forests. -/
theorem Rooted.remove (hrooted : Rooted actions enact) {kept : Actions} (removed : List GovActionId)
    (hlookup : ∀ id, kept.lookup id = if id ∈ removed then none else actions.lookup id)
    (hclosed : ∀ id action, actions.lookup id = some action →
      ∀ parent ∈ removed, conwayProposalPrevActionId action.proposal.govAction = some parent →
        id ∈ removed) : Rooted kept enact := by
  intro purpose
  refine @Forest.remove _ _ _ _ (hrooted purpose) (· ∈ removed) ?_ ?_ ?_
  · intro id hremoved
    exact lineage_of_absent (by rw [hlookup, if_pos hremoved]) purpose
  · intro id hstays
    exact lineage_congr (by rw [hlookup, if_neg hstays]) purpose
  · intro id parent hlink hparent
    obtain ⟨action, haction, -, hprev⟩ := lookup_of_lineage hlink
    exact hclosed id action haction parent hparent hprev

/-! ## Expiry -/

theorem mem_nextWave {removed : List GovActionId} :
    id ∈ nextWave actions removed ↔ id ∉ removed ∧ ∃ action, actions.lookup id = some action ∧
      ∃ parent ∈ removed, conwayProposalPrevActionId action.proposal.govAction = some parent := by
  unfold nextWave conwayProposalPrevActionId
  constructor
  · intro hmem
    obtain ⟨entry, hentry, rfl⟩ := List.mem_map.mp hmem
    obtain ⟨hentry, htest⟩ := List.mem_filter.mp hentry
    obtain ⟨hnew, hany⟩ := of_decide_eq_true htest
    obtain ⟨parent, hparent, hremoved⟩ := (Option.any_eq_true _ _).mp hany
    exact ⟨hnew, entry.2, AList.mem_lookup_iff.mpr hentry, parent, of_decide_eq_true hremoved,
      hparent⟩
  · rintro ⟨hnew, action, hlookup, parent, hremoved, hparent⟩
    refine List.mem_map.mpr ⟨⟨id, action⟩, List.mem_filter.mpr ⟨AList.mem_lookup_iff.mp hlookup, ?_⟩,
      rfl⟩
    refine decide_eq_true ⟨hnew, ?_⟩
    rw [hparent]
    exact decide_eq_true hremoved

/-- The identifiers that are not yet removed. -/
def remainingIds (actions : Actions) (removed : List GovActionId) : List GovActionId :=
  actions.keys.filter (· ∉ removed)

/-- A wave that is not empty leaves fewer identifiers. -/
theorem remainingIds_lt {removed : List GovActionId} (hwave : nextWave actions removed ≠ []) :
    (remainingIds actions (removed ++ nextWave actions removed)).length <
      (remainingIds actions removed).length := by
  obtain ⟨id, hid⟩ := List.exists_mem_of_ne_nil _ hwave
  obtain ⟨hnew, action, hlookup, -⟩ := mem_nextWave.mp hid
  have hsub : remainingIds actions (removed ++ nextWave actions removed) =
      (remainingIds actions removed).filter (· ∉ nextWave actions removed) := by
    unfold remainingIds
    rw [List.filter_filter]
    refine List.filter_congr fun other _ => ?_
    simp [Bool.and_comm]
  have hmem : id ∈ remainingIds actions removed := by
    refine List.mem_filter.mpr ⟨AList.mem_keys.mp (AList.lookup_isSome.mp ?_), by simpa using hnew⟩
    rw [hlookup, Option.isSome_some]
  rw [hsub]
  exact List.length_filter_lt_length_iff_exists.mpr ⟨id, hmem, by simpa using hid⟩

/-- The waves stop where no action builds on a removed one. -/
theorem nextWave_descendantClosure (actions : Actions) (rounds : Nat) (removed : List GovActionId)
    (hrounds : (remainingIds actions removed).length ≤ rounds) :
    removed ⊆ descendantClosure actions rounds removed ∧
      nextWave actions (descendantClosure actions rounds removed) = [] := by
  induction rounds generalizing removed with
  | zero =>
    refine ⟨List.Subset.refl _, ?_⟩
    show nextWave actions removed = []
    by_contra hwave
    have := remainingIds_lt hwave
    omega
  | succ rounds ih =>
    rw [descendantClosure]
    split
    · next hempty => exact ⟨List.Subset.refl _, List.isEmpty_iff.mp hempty⟩
    · next hmore =>
        have hlt := remainingIds_lt fun hnone => hmore (List.isEmpty_iff.mpr hnone)
        obtain ⟨hsubset, hdone⟩ := ih (removed ++ nextWave actions removed) (by omega)
        exact ⟨List.Subset.trans (List.subset_append_left _ _) hsubset, hdone⟩

theorem remainingIds_le (actions : Actions) (removed : List GovActionId) :
    (remainingIds actions removed).length ≤ actions.entries.length := by
  refine (List.length_filter_le _ _).trans (le_of_eq ?_)
  simp [AList.keys, List.keys]

theorem rooted_expire {state : BoundaryState} (epoch : EpochNo)
    (hrooted : Rooted state.rest.governanceActions enact) :
    let expired := removeExpiredGovernanceActions epoch state
    Rooted (pruneDescendants expired.2.1 expired.1).1.rest.governanceActions enact := by
  intro expired
  have hexpired : ∀ id, expired.1.rest.governanceActions.lookup id =
      if id ∈ expired.2.1 then none else state.rest.governanceActions.lookup id :=
    fun id => lookup_removeActions _ _ id
  unfold pruneDescendants
  split
  · next hnone =>
      refine hrooted.remove [] (fun id => ?_) (fun _ _ _ parent hparent => ?_)
      · rw [hexpired, List.isEmpty_iff.mp hnone]
      · exact absurd hparent List.not_mem_nil
  · obtain ⟨hsubset, hdone⟩ := nextWave_descendantClosure expired.1.rest.governanceActions
      expired.1.rest.governanceActions.entries.length expired.2.1 (remainingIds_le _ _)
    have hpruned : ∀ id,
        (removeDescendantsOf expired.2.1 expired.1).1.rest.governanceActions.lookup id =
          if id ∈ descendantsOf expired.2.1 expired.1.rest.governanceActions then none
          else expired.1.rest.governanceActions.lookup id :=
      fun id => lookup_removeActions _ _ id
    refine hrooted.remove (descendantClosure expired.1.rest.governanceActions
      expired.1.rest.governanceActions.entries.length expired.2.1) (fun id => ?_)
      (fun id action haction parent hparent hprev => ?_)
    · rw [hpruned, hexpired, descendantsOf]
      by_cases hfirst : id ∈ expired.2.1
      · simp [hfirst, hsubset hfirst]
      · simp [hfirst]
    · -- an action that survived the expiry would be in the next wave
      by_cases hfirst : id ∈ expired.2.1
      · exact hsubset hfirst
      · by_contra hstays
        have hwave := mem_nextWave.mpr ⟨hstays, action, by rw [hexpired, if_neg hfirst, haction],
          parent, hparent, hprev⟩
        rw [hdone] at hwave
        exact List.not_mem_nil hwave

/-! ## Enactment -/

theorem mem_purposeProposals {proposal : GovActionId × Option GovActionId} :
    proposal ∈ purposeProposals actions purpose ↔
      lineage actions purpose proposal.1 = some proposal.2 := by
  constructor
  · intro hmem
    obtain ⟨entry, hentry, rfl⟩ := List.mem_map.mp hmem
    obtain ⟨hentry, hpurpose⟩ := List.mem_filter.mp hentry
    rw [lineage_of_lookup (AList.mem_lookup_iff.mpr hentry), if_pos (of_decide_eq_true hpurpose)]
    rfl
  · intro hlink
    obtain ⟨action, hlookup, hpurpose, hprev⟩ := lookup_of_lineage hlink
    refine List.mem_map.mpr ⟨⟨proposal.1, action⟩, List.mem_filter.mpr
      ⟨AList.mem_lookup_iff.mp hlookup, decide_eq_true hpurpose⟩, ?_⟩
    exact Prod.ext rfl hprev

section

variable {links : Links GovActionId} {root : Option GovActionId}
  {proposals : List (GovActionId × Option GovActionId)} {valid : List GovActionId}

/-- A pass collects upwards from the root. -/
theorem collected_lineagePass (hlinks : ∀ proposal ∈ proposals, links proposal.1 = some proposal.2)
    (hvalid : Collected links root valid) :
    Collected links root (lineagePass root proposals valid) := by
  induction proposals generalizing valid with
  | nil => exact hvalid
  | cons proposal later ih =>
    obtain ⟨hlink, hlater⟩ := List.forall_mem_cons.mp hlinks
    refine ih hlater ?_
    dsimp only
    split
    · exact hvalid
    · split
      · next hchains =>
          refine hvalid.add hlink (hchains.imp_right fun hany => ?_)
          obtain ⟨parent, hparent, hmem⟩ := (Option.any_eq_true _ _).mp hany
          exact ⟨parent, of_decide_eq_true hmem, hparent⟩
      · exact hvalid

theorem collected_lineageClosure
    (hlinks : ∀ proposal ∈ proposals, links proposal.1 = some proposal.2) (rounds : Nat)
    (hvalid : Collected links root valid) :
    Collected links root (lineageClosure root proposals rounds valid) := by
  induction rounds generalizing valid with
  | zero => exact hvalid
  | succ rounds ih =>
    rw [lineageClosure]
    split
    · exact hvalid
    · exact ih (collected_lineagePass hlinks hvalid)

end

/-- The actions of a purpose that build on its root. -/
def validIds (actions : Actions) (enact : EnactState) (purpose : ConwayGovActionPurpose) :
    List GovActionId :=
  lineageClosure (enact.enactedRoot purpose) (purposeProposals actions purpose)
    (purposeProposals actions purpose).length []

/-- An action of a purpose with an enactment is stale if it does not build on the root; one of
another purpose never is. -/
theorem mem_stale_iff {purposes : List ConwayGovActionPurpose}
    (hlink : (lineage actions purpose id).isSome) :
    id ∈ removeLineageConflictingProposals actions enact purposes ↔
      purpose ∈ purposes ∧ id ∉ validIds actions enact purpose := by
  obtain ⟨before, hlink⟩ := Option.isSome_iff_exists.mp hlink
  have hids : ∀ other, id ∈ (purposeProposals actions other).map (·.1) ↔ other = purpose := by
    intro other
    constructor
    · intro hmem
      obtain ⟨proposal, hproposal, rfl⟩ := List.mem_map.mp hmem
      obtain ⟨action, hlookup, hpurpose, -⟩ := lookup_of_lineage hlink
      obtain ⟨same, hsame, hother, -⟩ := lookup_of_lineage (mem_purposeProposals.mp hproposal)
      rw [hlookup] at hsame
      cases hsame
      exact hother.symm.trans hpurpose
    · rintro rfl
      exact List.mem_map.mpr ⟨(id, before), mem_purposeProposals.mpr hlink, rfl⟩
  unfold removeLineageConflictingProposals
  simp only [List.mem_flatMap, List.mem_dedup, List.mem_filter, hids]
  constructor
  · rintro ⟨other, hother, rfl, hstale⟩
    exact ⟨hother, of_decide_eq_true hstale⟩
  · rintro ⟨hpurpose, hstale⟩
    exact ⟨purpose, hpurpose, rfl, decide_eq_true hstale⟩

/-- After the stale actions are dropped, what is left of a purpose with an enactment builds on its
root, and the other purposes are as they were. -/
theorem forest_removeStale {purposes : List ConwayGovActionPurpose}
    (purpose : ConwayGovActionPurpose)
    (hothers : purpose ∉ purposes → Forest (lineage actions purpose) (enact.enactedRoot purpose)) :
    Forest (lineage (removeActions (removeLineageConflictingProposals actions enact purposes)
      actions).1 purpose) (enact.enactedRoot purpose) := by
  have hleft : lineage (removeActions (removeLineageConflictingProposals actions enact purposes)
      actions).1 purpose = fun id =>
        if purpose ∈ purposes ∧ id ∉ validIds actions enact purpose then none
        else lineage actions purpose id := by
    funext id
    have hremoved : lineage (removeActions (removeLineageConflictingProposals actions enact
      purposes)
        actions).1 purpose id = if id ∈ removeLineageConflictingProposals actions enact purposes
          then none else lineage actions purpose id := by
      rw [lineage, lookup_removeActions]
      split <;> rfl
    rw [hremoved]
    by_cases hlink : (lineage actions purpose id).isSome
    · simp only [mem_stale_iff hlink]
    · -- not of this purpose, before or after
      rw [Option.not_isSome_iff_eq_none.mp hlink, ite_self, ite_self]
  rw [hleft]
  by_cases hpurpose : purpose ∈ purposes
  · have hcollected : Collected (lineage actions purpose) (enact.enactedRoot purpose)
        (validIds actions enact purpose) :=
      collected_lineageClosure (fun _ hmem => mem_purposeProposals.mp hmem) _
        collected_nil
    have hamong : (fun id => if purpose ∈ purposes ∧ id ∉ validIds actions enact purpose then none
        else lineage actions purpose id) =
          among (lineage actions purpose) (validIds actions enact purpose) := by
      funext id
      unfold among
      by_cases hvalid : id ∈ validIds actions enact purpose <;> simp [hpurpose]
    rw [hamong]
    exact hcollected.forest
  · simp only [hpurpose, false_and, if_false]
    exact hothers hpurpose

/-- An enactment moves no other root than that of its purpose. -/
theorem enactedRoot_enactGovAction {action : Action} {enactment : Enactment}
    (hother : purpose ≠ conwayGovActionPurpose action) :
    (enactGovAction id action enactment).1.enact.enactedRoot purpose =
      enactment.enact.enactedRoot purpose := by
  cases action with
  | infoAction | treasuryWithdrawals withdrawals hash => rfl
  | parameterChange _ _ _ | hardForkInitiation _ _ | noConfidence _ | updateCommittee _ _ _ _
  | newConstitution _ _ =>
    cases purpose with
    | treasuryWithdrawals | info => rfl
    | parameterChange | hardFork | committee | constitution =>
      first
      | rfl
      | exact absurd rfl hother

theorem hardForkFixup_actions (action : Action) (state : BoundaryState) :
    (hardForkFixup action state).rest.governanceActions = state.rest.governanceActions ∧
      (hardForkFixup action state).rest.other = state.rest.other := by
  unfold hardForkFixup
  split
  · split <;> exact ⟨rfl, rfl⟩
  · exact ⟨rfl, rfl⟩

/-- The purposes without an enactment are as they were before ratification. -/
structure LoopFrame (start : BoundaryState) (progress : RatifyProgress) : Prop where
  lineage : ∀ purpose ∉ progress.enactedPurposes,
    lineage progress.state.rest.governanceActions purpose =
      lineage start.rest.governanceActions purpose
  root : ∀ purpose ∉ progress.enactedPurposes,
    progress.state.rest.other.enactState.enactedRoot purpose =
      start.rest.other.enactState.enactedRoot purpose
  counted : progress.enactedPurposes.length = progress.enactedIds.length

theorem LoopFrame.enactStep {start : BoundaryState} {progress : RatifyProgress}
    (hframe : LoopFrame start progress) {action : ActionState}
    (hlookup : progress.state.rest.governanceActions.lookup id = some action) :
    LoopFrame start (enactStep id action progress) := by
  obtain ⟨hactions, hother⟩ := hardForkFixup_actions action.proposal.govAction
    (BoundaryState.withEnactment (enactGovAction id action.proposal.govAction
      (BoundaryState.enactment { progress.state with
        rest := { progress.state.rest with
          governanceActions := progress.state.rest.governanceActions.erase id } })).1
      { progress.state with
        rest := { progress.state.rest with
          governanceActions := progress.state.rest.governanceActions.erase id } })
  have hsplit : ∀ purpose, purpose ∉ (Ledger.enactStep id action progress).enactedPurposes →
      purpose ∉ progress.enactedPurposes ∧
        purpose ≠ conwayGovActionPurpose action.proposal.govAction := by
    intro purpose hpurpose
    dsimp only [Ledger.enactStep] at hpurpose
    simpa using hpurpose
  refine ⟨fun purpose hpurpose => ?_, fun purpose hpurpose => ?_, ?_⟩
  · obtain ⟨hbefore, hne⟩ := hsplit purpose hpurpose
    rw [← hframe.lineage purpose hbefore]
    dsimp only [Ledger.enactStep]
    rw [hactions]
    funext other
    by_cases hid : other = id
    · -- the enacted action is of another purpose
      rw [hid, lineage_of_lookup hlookup, if_neg hne.symm]
      exact lineage_of_absent (AList.lookup_erase _ _) purpose
    · exact lineage_congr (AList.lookup_erase_ne hid) purpose
  · obtain ⟨hbefore, hne⟩ := hsplit purpose hpurpose
    rw [← hframe.root purpose hbefore]
    dsimp only [Ledger.enactStep]
    rw [hother]
    exact enactedRoot_enactGovAction hne
  · dsimp only [Ledger.enactStep]
    rw [List.length_append, List.length_append, hframe.counted]
    rfl

theorem loopFrame_ratifyLoop (currentEpoch : EpochNo) (snapshots : StakeSnapshots)
    (drepActivity : UInt64) (state : BoundaryState) :
    LoopFrame state (ratifyLoop currentEpoch snapshots drepActivity state) := by
  refine List.foldlRecOn _ _ ⟨fun _ _ => rfl, fun _ _ => rfl, rfl⟩ fun progress hframe id _ => ?_
  unfold ratifyStep
  split
  · exact hframe
  · next action hlookup =>
      split
      · exact hframe.enactStep hlookup
      · exact ⟨hframe.lineage, hframe.root, hframe.counted⟩

theorem rooted_ratifyAndEnact (currentEpoch : EpochNo) (snapshots : StakeSnapshots)
    (drepActivity : UInt64) {state : BoundaryState}
    (hrooted : Rooted state.rest.governanceActions state.rest.other.enactState) :
    let ratified := (ratifyAndEnact currentEpoch snapshots drepActivity state).1
    Rooted ratified.rest.governanceActions ratified.rest.other.enactState := by
  have hframe := loopFrame_ratifyLoop currentEpoch snapshots drepActivity state
  have hothers : ∀ purpose,
      purpose ∉ (ratifyLoop currentEpoch snapshots drepActivity state).enactedPurposes →
      Forest (lineage (ratifyLoop currentEpoch snapshots drepActivity
          state).state.rest.governanceActions purpose)
        ((ratifyLoop currentEpoch snapshots drepActivity
          state).state.rest.other.enactState.enactedRoot purpose) := by
    intro purpose hpurpose
    rw [hframe.lineage purpose hpurpose, hframe.root purpose hpurpose]
    exact hrooted purpose
  intro ratified purpose
  dsimp only [ratified, ratifyAndEnact]
  split
  · next hnone =>
      refine hothers purpose ?_
      have hlength := hframe.counted
      rw [List.isEmpty_iff.mp hnone] at hlength
      rw [List.eq_nil_of_length_eq_zero hlength]
      exact List.not_mem_nil
  · exact forest_removeStale purpose (hothers purpose)

theorem rooted_governBoundary (newEpoch : EpochNo) (snapshots : StakeSnapshots)
    (drepActivity : UInt64) {state : BoundaryState}
    (hrooted : Rooted state.rest.governanceActions state.rest.other.enactState) :
    let governed := (governBoundary newEpoch snapshots drepActivity state).1
    Rooted governed.rest.governanceActions governed.rest.other.enactState := by
  have hratified := rooted_ratifyAndEnact newEpoch snapshots drepActivity hrooted
  have hexpired := rooted_expire newEpoch hratified
  have henact : ∀ (ids : List GovActionId) (state : BoundaryState),
      (pruneDescendants ids state).1.rest.other = state.rest.other := by
    intro ids state
    unfold pruneDescendants
    split <;> rfl
  intro governed
  dsimp only [governed, governBoundary]
  rw [henact]
  exact hexpired

/-! ## Transactions and boundaries -/

theorem lineage_of_proposals {other : Actions}
    (hsame : (actions.lookup id).map (·.proposal) = (other.lookup id).map (·.proposal))
    (purpose : ConwayGovActionPurpose) : lineage actions purpose id = lineage other purpose id := by
  have hproposal : ∀ any : Actions, lineage any purpose id =
      ((any.lookup id).map (·.proposal)).bind fun proposal =>
        if conwayGovActionPurpose proposal.govAction = purpose then
          some (conwayProposalPrevActionId proposal.govAction)
        else none := by
    intro any
    rw [lineage]
    cases any.lookup id <;> rfl
  rw [hproposal, hproposal, hsame]

theorem proposal_recordVotes (voting : VotingProcedures) (actions : Actions) (id : GovActionId) :
    ((recordVotes voting actions).lookup id).map (·.proposal) =
      (actions.lookup id).map (·.proposal) := by
  refine foldl_keeps (fun staged : Actions => (staged.lookup id).map _)
    (fun staged ballot => ?_) _ _
  refine foldl_keeps (fun staged : Actions => (staged.lookup id).map _)
    (fun staged vote => ?_) _ _
  apply KeyedMap.map_lookup_modify
  intro action
  rfl

theorem proposal_removeConwayDrepVotes (voters : List Voter) (actions : Actions)
    (id : GovActionId) :
    ((removeConwayDrepVotes voters actions).lookup id).map (·.proposal) =
      (actions.lookup id).map (·.proposal) := by
  unfold removeConwayDrepVotes
  rw [KeyedMap.lookup_mapValues]
  cases actions.lookup id <;> rfl

section

variable {More Evaluator : Type}

/-- What a Conway transaction checks its proposals against. -/
def proposalContext (context : TxContext ProtocolParameterUpdate EpochState More Evaluator)
    (simulated : CertState) : ProposalContext where
  txId := context.tx.id
  currentEpoch := context.state.rest.currentEpoch
  stakeCredentials := simulated.stakeCredentials
  protocolVersion := context.state.protocolParams.bind (·.protocolVersion)
  govActionDeposit := context.state.protocolParams.bind (·.govActionDeposit)
  expectedNetworkId := context.state.rest.expectedNetworkId
  enact := context.state.rest.other.enactState
  govActionLifetime := context.state.protocolParams.bind (·.govActionLifetime)

/-- The rules of a transaction with the check of proposals in its place. -/
def withProposalCheck (checks : Checks ProtocolParameterUpdate EpochState More Evaluator) :
    Checks ProtocolParameterUpdate EpochState More Evaluator :=
  { checks with proposal := fun context simulated => checkProposal (proposalContext context simulated) }

/-- The governance of a transaction: its proposals are staged, and nothing else touches the
lineages. -/
theorem lineage_governVotesAndProposals
    {checks : Checks ProtocolParameterUpdate EpochState More Evaluator}
    {context : TxContext ProtocolParameterUpdate EpochState More Evaluator}
    {rest governed : BoundaryRest}
    (hrun : governVotesAndProposals (withProposalCheck checks) context rest = .ok governed) :
    ∃ simulated staged, validateConwayProposals (proposalContext context simulated)
        (context.tx.body.extra.proposalProcedures.getD []) rest.governanceActions = .ok staged ∧
      governed.other = rest.other ∧
      ∀ purpose, lineage governed.governanceActions purpose = lineage staged purpose := by
  unfold governVotesAndProposals at hrun
  simp only [bind_eq_ok] at hrun
  obtain ⟨⟨simulated, _⟩, -, _, -, staged, hstage, _, -, hreturn⟩ := hrun
  cases hreturn
  refine ⟨simulated, staged, hstage, rfl, fun purpose => funext fun id => ?_⟩
  exact lineage_of_proposals
    ((proposal_removeConwayDrepVotes _ _ _).trans (proposal_recordVotes _ _ _)) purpose

end

variable {count : Nat} (newEpoch : EpochNo) {state : BoundaryState}

theorem payRewards_actions (dist : Rewards.EpochRewardDistribution) (state : BoundaryState) :
    (payRewards newEpoch dist state).1.governanceActions = state.rest.governanceActions ∧
      (payRewards newEpoch dist state).1.other = state.rest.other := by
  unfold payRewards applyMirAtEpochBoundary
  dsimp only
  split <;> exact ⟨rfl, rfl⟩

theorem retirePoolsWithRefunds_actions (epoch : EpochNo) (rest : BoundaryRest) :
    (retirePoolsWithRefunds epoch rest).1.governanceActions = rest.governanceActions ∧
      (retirePoolsWithRefunds epoch rest).1.other = rest.other := by
  unfold retirePoolsWithRefunds
  dsimp only
  split <;> exact ⟨rfl, rfl⟩

theorem accountBoundary_actions (dist : Rewards.EpochRewardDistribution)
    (unregistered unclaimedPools : UInt64) (state : BoundaryState) :
    (accountBoundary newEpoch dist unregistered unclaimedPools state).1.rest.governanceActions =
        state.rest.governanceActions ∧
      (accountBoundary newEpoch dist unregistered unclaimedPools state).1.rest.other.enactState =
        state.rest.other.enactState :=
  ⟨rfl, rfl⟩

theorem closeGovernance_actions (refunds : GovernanceRefunds) (rest : BoundaryRest) :
    (closeGovernance refunds rest).governanceActions = rest.governanceActions ∧
      (closeGovernance refunds rest).other = rest.other :=
  ⟨rfl, rfl⟩

theorem rooted_boundaryRun (snapshots : StakeSnapshots) (dist : Rewards.EpochRewardDistribution)
    (hrooted : Rooted state.rest.governanceActions state.rest.other.enactState) :
    let final := (boundaryRun newEpoch state snapshots dist).final
    Rooted final.rest.governanceActions final.rest.other.enactState := by
  obtain ⟨hpaid, hpaidOther⟩ := payRewards_actions newEpoch dist state
  obtain ⟨hretired, hretiredOther⟩ := retirePoolsWithRefunds_actions newEpoch
    (adoptStaged (payRewards newEpoch dist state).1)
  intro final
  dsimp only [final, boundaryRun]
  rw [(closeGovernance_actions _ _).1, (closeGovernance_actions _ _).2]
  refine rooted_governBoundary newEpoch _ _ ?_
  rw [(accountBoundary_actions _ _ _ _ _).1, (accountBoundary_actions _ _ _ _ _).2]
  rw [hretired, hretiredOther]
  dsimp only [adoptStaged]
  rw [hpaid, hpaidOther]
  exact hrooted

theorem rooted_applyEpochBoundary {newEpoch : EpochNo}
    {performance : KeyedMap PoolKeyHash UnitInterval} {snapshots : StakeSnapshots}
    {result : BoundaryState × StakeSnapshots × EpochBoundaryEvent}
    (hrun : applyEpochBoundary newEpoch performance state snapshots = .ok result)
    (hrooted : Rooted state.rest.governanceActions state.rest.other.enactState) :
    Rooted result.1.rest.governanceActions result.1.rest.other.enactState := by
  obtain ⟨dist, -, hresult⟩ := bind_eq_ok.mp hrun
  have hfinal := congrArg Prod.fst (Except.ok.inj hresult)
  dsimp only at hfinal
  have hboundary := rooted_boundaryRun newEpoch snapshots dist hrooted
  rwa [hfinal] at hboundary

/-! ## Runs -/

/-- What happens to the pending actions. -/
inductive GovernanceEvent where
  /-- A transaction with proposals. -/
  | propose (context : ProposalContext) (proposals : List Proposal)
  | boundary (newEpoch : EpochNo) (performance : KeyedMap PoolKeyHash UnitInterval)
      (snapshots : StakeSnapshots)
  /-- Votes, certificates and everything else that leaves proposals and roots alone. -/
  | elsewhere (next : BoundaryState)

/-- The pending actions through a run of accepted events. -/
def governance (start : BoundaryState) : TransitionSystem BoundaryState GovernanceEvent where
  start := start
  enabled state
    | .propose context proposals => context.enact = state.rest.other.enactState ∧
        (validateConwayProposals context proposals state.rest.governanceActions).isOk
    | .boundary newEpoch performance snapshots =>
      (applyEpochBoundary newEpoch performance state snapshots).isOk
    | .elsewhere next => ∀ purpose,
        lineage next.rest.governanceActions purpose = lineage state.rest.governanceActions purpose ∧
          next.rest.other.enactState.enactedRoot purpose =
            state.rest.other.enactState.enactedRoot purpose
  step state
    | .propose context proposals =>
      match validateConwayProposals context proposals state.rest.governanceActions with
      | .ok staged => { state with rest := { state.rest with governanceActions := staged } }
      | .error _ => state
    | .boundary newEpoch performance snapshots =>
      match applyEpochBoundary newEpoch performance state snapshots with
      | .ok result => result.1
      | .error _ => state
    | .elsewhere next => next

/-- Every proposal of the event gets an identifier that is not pending. -/
def Identified (state : BoundaryState) : GovernanceEvent → Prop
  | .propose context proposals => NewIds context proposals state.rest.governanceActions
  | .boundary .. | .elsewhere _ => True

theorem rooted_step {start : BoundaryState} {event : GovernanceEvent}
    (henabled : (governance start).enabled state event) (hids : Identified state event)
    (hrooted : Rooted state.rest.governanceActions state.rest.other.enactState) :
    Rooted ((governance start).step state event).rest.governanceActions
      ((governance start).step state event).rest.other.enactState := by
  cases event with
  | propose context proposals =>
    obtain ⟨henact, haccepted⟩ := henabled
    dsimp only [governance]
    cases hrun : validateConwayProposals context proposals state.rest.governanceActions with
    | error failure =>
      rw [hrun] at haccepted
      cases haccepted
    | ok staged =>
      rw [← henact] at hrooted ⊢
      exact rooted_validateConwayProposals hrooted hids hrun
  | boundary newEpoch performance snapshots =>
    dsimp only [governance] at henabled ⊢
    cases hrun : applyEpochBoundary newEpoch performance state snapshots with
    | error failure =>
      rw [hrun] at henabled
      cases henabled
    | ok result => exact rooted_applyEpochBoundary hrun hrooted
  | elsewhere next =>
    intro purpose
    obtain ⟨hlineage, hroot⟩ := henabled purpose
    show Forest (lineage next.rest.governanceActions purpose)
      (next.rest.other.enactState.enactedRoot purpose)
    rw [hlineage, hroot]
    exact hrooted purpose

/-- A pending action with a lineage builds on the enacted root of its purpose or on a pending
action of the purpose, and the way up leads to the root without a cycle. -/
def LineageHolds (state : BoundaryState) : Prop :=
  ∀ id action prev, state.rest.governanceActions.lookup id = some action →
    govActionPrevId action.proposal.govAction = some prev →
    let purpose := conwayGovActionPurpose action.proposal.govAction
    let root := state.rest.other.enactState.enactedRoot purpose
    (prev = root ∨ ∃ parent before, prev = some parent ∧
        state.rest.governanceActions.lookup parent = some before ∧
        conwayGovActionPurpose before.proposal.govAction = purpose) ∧
      ∃ path, Climbs (lineage state.rest.governanceActions purpose) root id path ∧ path.Nodup

theorem Rooted.lineageHolds
    (hrooted : Rooted state.rest.governanceActions state.rest.other.enactState) :
    LineageHolds state := by
  intro id action prev hlookup hprev
  have hlink := lineage_of_lookup hlookup (conwayGovActionPurpose action.proposal.govAction)
  rw [if_pos rfl, conwayProposalPrevActionId, hprev, Option.join_some] at hlink
  have hforest := hrooted (conwayGovActionPurpose action.proposal.govAction)
  refine ⟨(hforest.parent hlink).imp_right ?_, ?_⟩
  · rintro ⟨parent, rfl, hparent⟩
    obtain ⟨before, hbefore⟩ := Option.isSome_iff_exists.mp hparent
    obtain ⟨state, hstate, hpurpose, -⟩ := lookup_of_lineage hbefore
    exact ⟨parent, state, rfl, hstate, hpurpose⟩
  · exact (hforest id (by rw [hlink, Option.isSome_some])).climbs

/-- **The lineages stay forests.**  In every state of a run of accepted events whose proposals all
get identifiers that are not pending. -/
theorem lineage_run (start : BoundaryState) (hempty : start.rest.governanceActions = ∅)
    (events : List GovernanceEvent) (hlegal : (governance start).Legal events)
    (hids : ∀ done event, done ++ [event] <+: events →
      Identified ((governance start).run done) event) (done : List GovernanceEvent)
    (hdone : done <+: events) : LineageHolds ((governance start).run done) := by
  refine Rooted.lineageHolds ?_
  induction done using List.reverseRecOn with
  | nil =>
    intro purpose id hid
    rw [TransitionSystem.run_nil] at hid
    rw [lineage_of_absent (by rw [show (governance start).start = start from rfl, hempty]; rfl)]
      at hid
    cases hid
  | append_singleton earlier event ih =>
    rw [TransitionSystem.run_concat]
    exact rooted_step (hlegal earlier event hdone) (hids earlier event hdone)
      (ih ((List.prefix_append _ _).trans hdone))

/-! ## More proposals than identifiers -/

/-- The proposals of transaction 1, in the bootstrap phase. -/
def crowdedContext : ProposalContext where
  txId := 1
  currentEpoch := 0
  stakeCredentials := ∅
  protocolVersion := some (9, 0)
  govActionDeposit := none
  expectedNetworkId := none
  enact := .default
  govActionLifetime := none

/-- A proposal that gives its deposit back to the key hash of zeros. -/
def plainProposal (action : Action) : Proposal where
  deposit := 0
  rewardAccount := 0xe0 :: List.replicate 28 0
  govAction := action
  anchor := ⟨[], 0⟩

def infoProposal : Proposal := plainProposal .infoAction

def changeAfter (prevActionId : Option GovActionId) : Proposal :=
  plainProposal (.parameterChange prevActionId { minFeeA := some 1 } none)

def stageCrowded (actions : Actions) (proposal : Proposal × Nat) : Result Actions := do
  checkProposal crowdedContext actions proposal.2 proposal.1
  return actions.insert (proposalId 1 proposal.2) (.newWithLifetime proposal.1 0 none)

/-- The actions after a number of proposals without a lineage. -/
def withInfos : Nat → Nat → Actions → Actions
  | 0, _, actions => actions
  | count + 1, start, actions => withInfos count (start + 1)
      (actions.insert (proposalId 1 start) (.newWithLifetime infoProposal 0 none))

theorem foldlM_infos (count start : Nat) (actions : Actions) :
    ((List.replicate count infoProposal).zipIdx start).foldlM stageCrowded actions =
      .ok (withInfos count start actions) := by
  induction count generalizing start actions with
  | zero => rfl
  | succ count ih =>
    rw [List.replicate_succ, List.zipIdx_cons, List.foldlM_cons]
    exact ih _ _

theorem lookup_withInfos (count start : Nat) (actions : Actions)
    (hid : ∀ index, start ≤ index → index < start + count → id ≠ proposalId 1 index) :
    (withInfos count start actions).lookup id = actions.lookup id := by
  induction count generalizing start actions with
  | zero => rfl
  | succ count ih =>
    rw [withInfos, ih _ _ fun index hstart hindex => hid index (by omega) (by omega)]
    exact AList.lookup_insert_ne (hid start le_rfl (by omega))

/-- A change of parameters, one on it, some proposals without a lineage, and one more change on the
second. -/
def crowdOf (count : Nat) : List Proposal :=
  changeAfter none :: changeAfter (some (proposalId 1 0)) ::
    (List.replicate count infoProposal ++ [changeAfter (some (proposalId 1 1))])

/-- The pending actions after the first two. -/
def twoChanges : Actions :=
  (AList.insert (proposalId 1 0) (.newWithLifetime (changeAfter none) 0 none) ∅ : Actions).insert
    (proposalId 1 1) (.newWithLifetime (changeAfter (some (proposalId 1 0))) 0 none)

/-- The last change takes the identifier of the first. -/
def crowdedActions (count : Nat) : Actions :=
  (withInfos count 2 twoChanges).insert (proposalId 1 0)
    (.newWithLifetime (changeAfter (some (proposalId 1 1))) 0 none)

theorem lookup_twoChanges (hcount : count + 2 ≤ 2 ^ 16) :
    (withInfos count 2 twoChanges).lookup (proposalId 1 1) =
      some (.newWithLifetime (changeAfter (some (proposalId 1 0))) 0 none) := by
  refine (lookup_withInfos count 2 _ fun other hstart hother hsame => ?_).trans
    (AList.lookup_insert _)
  have := proposalId_inj (by omega) (by omega) hsame
  omega

/-- A pending action of the purpose may be built on, from later in the transaction. -/
theorem checkLineage_pending {index : Nat} {action : Action} {parent : GovActionId}
    {state : ActionState} (hprev : conwayProposalPrevActionId action = some parent)
    (horder : parent.govActionIndex.toNat < index) (hlookup : actions.lookup parent = some state)
    (hpurpose : conwayGovActionPurpose state.proposal.govAction = conwayGovActionPurpose action) :
    checkLineage context actions index action = .ok () := by
  have hlater : ¬ (parent.transactionId = context.txId ∧ index ≤ parent.govActionIndex.toNat) :=
    fun hboth => absurd hboth.2 (by omega)
  have hfirst : rejectIf (parent.transactionId = context.txId ∧
      index ≤ parent.govActionIndex.toNat) .invalidPrevGovActionId = .ok () :=
    rejectIf_eq_ok.mpr hlater
  unfold checkLineage
  rw [hprev]
  dsimp only
  rw [hfirst, hlookup]
  split
  · rfl
  · exact rejectIf_eq_ok.mpr (by simp [hpurpose])

theorem stageCrowded_last {state : ActionState}
    (hsecond : actions.lookup (proposalId 1 1) = some state)
    (hpurpose : conwayGovActionPurpose state.proposal.govAction = .parameterChange) :
    stageCrowded actions (changeAfter (some (proposalId 1 1)), 65536) =
      .ok (actions.insert (proposalId 1 0)
        (.newWithLifetime (changeAfter (some (proposalId 1 1))) 0 none)) := by
  have hlineage : checkLineage crowdedContext actions 65536
      (changeAfter (some (proposalId 1 1))).govAction = .ok () :=
    checkLineage_pending rfl (by decide) hsecond hpurpose
  unfold stageCrowded checkProposal
  rw [hlineage]
  rfl

theorem validate_twoChanges (later : List Proposal) :
    validateConwayProposals crowdedContext
        (changeAfter none :: changeAfter (some (proposalId 1 0)) :: later) ∅ =
      (later.zipIdx 2).foldlM stageCrowded twoChanges := rfl

theorem validate_crowd (hcount : 2 + count = 65536) :
    validateConwayProposals crowdedContext (crowdOf count) ∅ = .ok (crowdedActions count) := by
  rw [crowdOf, validate_twoChanges, List.zipIdx_append, List.foldlM_append, foldlM_infos,
    List.length_replicate, hcount]
  show stageCrowded (withInfos count 2 twoChanges) (changeAfter (some (proposalId 1 1)), 65536) >>=
    (fun staged => .ok staged) = _
  rw [stageCrowded_last (lookup_twoChanges (by omega)) rfl]
  rfl

theorem crowdedActions_cycle (hcount : 2 + count = 65536) :
    lineage (crowdedActions count) .parameterChange (proposalId 1 0) =
        some (some (proposalId 1 1)) ∧
      lineage (crowdedActions count) .parameterChange (proposalId 1 1) =
        some (some (proposalId 1 0)) := by
  constructor
  · exact lineage_of_lookup (AList.lookup_insert _) _
  · have hlookup : (crowdedActions count).lookup (proposalId 1 1) =
        some (.newWithLifetime (changeAfter (some (proposalId 1 0))) 0 none) :=
      (AList.lookup_insert_ne (by decide)).trans (lookup_twoChanges (by omega))
    exact lineage_of_lookup hlookup _

/-- A change of parameters that needs no vote in the bootstrap phase, one on it that needs the pools,
and the end of the epoch. -/
def enactedParent : List GovernanceEvent :=
  [.propose crowdedContext [plainProposal (.parameterChange none { nOpt := some 1 } none),
    changeAfter (some (proposalId 1 0))], .boundary 1 ∅ .new]

def bootstrapState : BoundaryState :=
  { BoundaryState.new .conway with protocolParams := some { protocolVersion := some (9, 0) } }

/-- The boundary enacts the first change, and the second builds on the new root. -/
theorem enactedParent_keeps_lineage :
    ((governance bootstrapState).run enactedParent).rest.governanceActions.keys = [proposalId 1 1] ∧
      ((governance bootstrapState).run enactedParent).rest.other.enactState.prevPparamsUpdate =
        some (proposalId 1 0) ∧
      LineageHolds ((governance bootstrapState).run enactedParent) := by
  refine ⟨by decide +kernel, by decide +kernel,
    lineage_run _ rfl enactedParent ?_ ?_ enactedParent (List.prefix_refl _)⟩
  · exact TransitionSystem.legal_of_legalFrom _ ⟨⟨rfl, rfl⟩, rfl, trivial⟩
  · have hids : ({ governance bootstrapState with enabled := Identified }).Legal enactedParent :=
      TransitionSystem.legal_of_legalFrom _ ⟨⟨by decide, fun _ _ => rfl⟩, trivial, trivial⟩
    exact hids

/-- A transaction with 65537 proposals. -/
def crowdedTx : GovernanceEvent := .propose crowdedContext (crowdOf 65534)

theorem run_propose {start : BoundaryState} {proposals : List Proposal} {staged : Actions}
    (haccepted : validateConwayProposals context proposals start.rest.governanceActions =
      .ok staged) :
    (governance start).run [.propose context proposals] =
      { start with rest := { start.rest with governanceActions := staged } } := by
  rw [TransitionSystem.run, List.foldl_cons, List.foldl_nil]
  dsimp only [governance]
  rw [haccepted]

/-- On a cycle no way leads up to the root. -/
theorem not_climbs_of_cycle {links : Links GovActionId} {first second : GovActionId}
    (hfirst : links first = some (some second)) (hsecond : links second = some (some first))
    {path : List GovActionId} (hclimbs : Climbs links none id path) : id ≠ first ∧ id ≠ second := by
  induction hclimbs with
  | root hlink =>
    constructor <;> rintro rfl
    · rw [hfirst] at hlink
      cases hlink
    · rw [hsecond] at hlink
      cases hlink
  | next hlink _ ih =>
    constructor <;> rintro rfl
    · rw [hfirst] at hlink
      cases hlink
      exact ih.2 rfl
    · rw [hsecond] at hlink
      cases hlink
      exact ih.1 rfl

theorem not_lineageHolds_crowded (hcount : 2 + count = 65536)
    (hactions : state.rest.governanceActions = crowdedActions count)
    (hroot : state.rest.other.enactState.enactedRoot .parameterChange = none) :
    ¬ LineageHolds state := by
  intro hholds
  obtain ⟨hfirst, hsecond⟩ := crowdedActions_cycle hcount
  obtain ⟨-, path, hclimbs, -⟩ := hholds (proposalId 1 0)
    (.newWithLifetime (changeAfter (some (proposalId 1 1))) 0 none) _
    (by rw [hactions]; exact AList.lookup_insert _) rfl
  have hnone : Climbs (lineage state.rest.governanceActions .parameterChange) none
      (proposalId 1 0) path := by
    rw [← hroot]
    exact hclimbs
  rw [hactions] at hnone
  exact (not_climbs_of_cycle hfirst hsecond hnone).1 rfl

/-- **65537 proposals in one transaction close a cycle.** -/
theorem crowdedTx_closes_cycle :
    (governance (.new .conway)).Legal [crowdedTx] ∧
      ¬ LineageHolds ((governance (.new .conway)).run [crowdedTx]) := by
  have haccepted := @validate_crowd 65534 rfl
  constructor
  · refine TransitionSystem.legal_of_legalFrom _ ⟨⟨rfl, ?_⟩, trivial⟩
    show (validateConwayProposals crowdedContext (crowdOf 65534) ∅).isOk
    rw [haccepted]
    rfl
  · rw [crowdedTx, @run_propose crowdedContext (.new .conway) (crowdOf 65534)
      (crowdedActions 65534) haccepted]
    exact @not_lineageHolds_crowded 65534 _ rfl rfl rfl

end Yggdrasil.Ledger
