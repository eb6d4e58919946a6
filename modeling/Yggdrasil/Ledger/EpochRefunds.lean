import Yggdrasil.Ledger.DepositMovements
import Yggdrasil.Ledger.EpochBoundary

/-!
# Refunds at the epoch boundary

Pools that retire get their deposits back, and so do proposals that are enacted, expire or lose
what they build on.  This module says what the stages of the boundary leave alone, and that the
refunds it counts are the deposits that leave the record: `retirementTotal_eq` for pools and
`governBoundary_reduction` for proposals, whose deposits have to fit in a word.
-/

namespace Yggdrasil.Ledger

open Library KeyedMap

variable (epoch newEpoch currentEpoch : EpochNo) (rest : BoundaryRest)
  (ids expiredIds : List GovActionId) (snapshots : StakeSnapshots) (drepActivity : UInt64)
  (state : BoundaryState)

/-! ## Stages and what they leave alone -/

theorem applyMir_frame :
    (applyMirAtEpochBoundary rest).1.depositPot = rest.depositPot ∧
      (applyMirAtEpochBoundary rest).1.utxosDonation = rest.utxosDonation ∧
      (applyMirAtEpochBoundary rest).1.governanceActions = rest.governanceActions ∧
      (applyMirAtEpochBoundary rest).1.poolState = rest.poolState := by
  unfold applyMirAtEpochBoundary
  dsimp only
  split <;> exact ⟨rfl, rfl, rfl, rfl⟩

theorem retirePools_frame :
    (retirePoolsWithRefunds epoch rest).1.accounting = rest.accounting ∧
      (retirePoolsWithRefunds epoch rest).1.utxosDonation = rest.utxosDonation ∧
      (retirePoolsWithRefunds epoch rest).1.governanceActions = rest.governanceActions := by
  unfold retirePoolsWithRefunds
  dsimp only
  split <;> exact ⟨rfl, rfl, rfl⟩

theorem hardForkFixup_frame (action : Action) (state : BoundaryState) :
    (hardForkFixup action state).rest.rewardAccounts = state.rest.rewardAccounts ∧
      (hardForkFixup action state).rest.accounting = state.rest.accounting ∧
      (hardForkFixup action state).rest.governanceActions = state.rest.governanceActions ∧
      (hardForkFixup action state).rest.depositPot = state.rest.depositPot ∧
      (hardForkFixup action state).rest.utxosDonation = state.rest.utxosDonation := by
  unfold hardForkFixup
  split
  · split <;> exact ⟨rfl, rfl, rfl, rfl, rfl⟩
  · exact ⟨rfl, rfl, rfl, rfl, rfl⟩

/-- An enactment moves what the action moves and takes the action off the list. -/
theorem enactStep_spec (id : GovActionId) (action : ActionState) (progress : RatifyProgress) :
    let enacted := enactGovAction id action.proposal.govAction progress.state.enactment
    let next := (enactStep id action progress).state.rest
    next.rewardAccounts = enacted.1.rewardAccounts ∧ next.accounting = enacted.1.accounting ∧
      next.governanceActions = progress.state.rest.governanceActions.erase id ∧
      next.depositPot = progress.state.rest.depositPot ∧
      next.utxosDonation = progress.state.rest.utxosDonation :=
  hardForkFixup_frame action.proposal.govAction _

/-- What enactments and refunds leave alone, governance leaves alone. -/
theorem governBoundary_keeps {View : Type} (view : BoundaryState → View)
    (henact : ∀ id action progress, view (enactStep id action progress).state = view progress.state)
    (hrefunds : ∀ actions accounts state,
      view (BoundaryState.withRefunds actions accounts state) = view state) :
    view (governBoundary newEpoch snapshots drepActivity state).1 = view state := by
  have hstep : ∀ progress id, view (ratifyStep (votingWeights state snapshots drepActivity)
      newEpoch progress id).state = view progress.state := by
    intro progress id
    unfold ratifyStep
    split
    · rfl
    · split
      · exact henact _ _ progress
      · rfl
  have hloop := foldl_keeps (fun progress : RatifyProgress => view progress.state) hstep
    (ratificationOrder state.rest.governanceActions) (.start state)
  have hratified : view (ratifyAndEnact newEpoch snapshots drepActivity state).1 = view state := by
    refine Eq.trans ?_ hloop
    dsimp only [ratifyAndEnact]
    split
    · rfl
    · exact hrefunds _ _ _
  have hpruned : ∀ ids state, view (pruneDescendants ids state).1 = view state := by
    intro ids state
    unfold pruneDescendants
    split
    · rfl
    · exact hrefunds _ _ state
  exact ((hpruned _ _).trans (hrefunds _ _ _)).trans hratified

/-- Until it is closed, governance leaves the deposit pot and the donations alone. -/
theorem governBoundary_frame :
    let rest := (governBoundary newEpoch snapshots drepActivity state).1.rest
    rest.depositPot = state.rest.depositPot ∧ rest.utxosDonation = state.rest.utxosDonation := by
  refine Prod.mk.inj (governBoundary_keeps newEpoch snapshots _ state
    (fun state => (state.rest.depositPot, state.rest.utxosDonation))
    (fun id action progress => ?_) fun _ _ _ => rfl)
  obtain ⟨-, -, -, hpot, hdonation⟩ := enactStep_spec id action progress
  rw [hpot, hdonation]

theorem boundaryRun_governed (newEpoch : EpochNo) (state : BoundaryState)
    (snapshots : StakeSnapshots) (dist : Rewards.EpochRewardDistribution) :
    let run := boundaryRun newEpoch state snapshots dist
    (governBoundary newEpoch run.rotated (boundaryDrepActivity state) run.accounted).1 =
        run.governed ∧
      (governBoundary newEpoch run.rotated (boundaryDrepActivity state) run.accounted).2.2 =
        run.refunds ∧
      run.final.rest = closeGovernance run.refunds run.governed.rest ∧
      run.rotated.feePot = 0 ∧ run.rotated.previousFeePot = snapshots.feePot := by
  dsimp only [boundaryRun]
  exact ⟨rfl, rfl, rfl, rfl, rfl⟩

/-! ## Pools -/

theorem sum_filter_ne_zero {Key Amount : Type} [Zero Amount] [DecidableEq Amount]
    {measure : Amount → Nat} (hzero : measure 0 = 0) (amounts : List (Key × Amount)) :
    ((amounts.filter (·.2 ≠ 0)).map fun payment => measure payment.2).sum =
      (amounts.map fun payment => measure payment.2).sum := by
  induction amounts with
  | nil => rfl
  | cons payment rest ih =>
    by_cases hnone : payment.2 = 0
    · simp [hnone, hzero, ← ih]
    · simp [hnone, ← ih]

def retirementTotal (pools : PoolState) : Nat :=
  ((retirementRefunds epoch pools).map (·.2.toNat)).sum

/-- The refunds are the deposits of the pools that retire. -/
theorem retirementTotal_eq (pools : PoolState) :
    retirementTotal epoch pools = total (·.deposit.toNat)
      (keep (fun _ pool => PoolState.retiresBy epoch pool) pools.entries) := by
  unfold retirementTotal retirementRefunds
  rw [sum_filter_ne_zero UInt64.toNat_zero, List.map_map]
  unfold total keep PoolState.retiring
  rw [List.map_map]
  rfl

theorem retirementTotal_le (pools : PoolState) :
    retirementTotal epoch pools ≤ total (·.deposit.toNat) pools.entries := by
  rw [retirementTotal_eq, ← total_keep (·.deposit.toNat)
    (fun _ pool => PoolState.retiresBy epoch pool) pools.entries]
  exact Nat.le_add_right _ _

theorem adoptStaged_pools :
    total (·.deposit.toNat) (adoptStaged rest).poolState.entries =
      total (·.deposit.toNat) rest.poolState.entries := by
  dsimp only [adoptStaged, PoolState.adoptFutureParams]
  apply total_mapEntries_of_eq
  intro operator pool
  rfl

theorem returnPools_eq (refunds : List (RewardAccount × UInt64)) (pot : DepositPot) :
    refunds.foldl (fun pot refund => pot.returnPoolDeposit refund.2) pot =
      { pot with poolDeposits := (refunds.map (·.2)).foldl saturatingSub pot.poolDeposits } := by
  induction refunds generalizing pot with
  | nil => rfl
  | cons refund rest ih =>
    rw [List.foldl_cons, ih]
    rfl

/-- The refunds of pools leave the pot once, together. -/
theorem toNat_returnPools (pools : PoolState) (pot : DepositPot) :
    (((retirementRefunds epoch pools).map (·.2)).foldl saturatingSub pot.poolDeposits).toNat =
      pot.poolDeposits.toNat - retirementTotal epoch pools := by
  rw [toNat_foldl_saturatingSub, List.map_map]
  rfl

/-! ## Proposals -/

def pendingDeposits (actions : Actions) : Nat := total (·.proposal.deposit.toNat) actions

def depositsOf (proposals : List (ProposalProcedure ProtocolParameterUpdate)) : Nat :=
  (proposals.map (·.deposit.toNat)).sum

theorem depositsOf_append_singleton (proposals : List (ProposalProcedure ProtocolParameterUpdate))
    (proposal : ProposalProcedure ProtocolParameterUpdate) :
    depositsOf (proposals ++ [proposal]) = depositsOf proposals + proposal.deposit.toNat := by
  simp [depositsOf]

theorem pendingDeposits_erase {actions : Actions} {id : GovActionId} {action : ActionState}
    (hlookup : actions.lookup id = some action) :
    pendingDeposits (actions.erase id) + action.proposal.deposit.toNat =
      pendingDeposits actions := by
  have herase := total_erase (·.proposal.deposit.toNat) actions id
  rw [amountAt_of_lookup hlookup] at herase
  exact herase

theorem removeActions_deposits (actions : Actions) :
    pendingDeposits (removeActions ids actions).1 + depositsOf (removeActions ids actions).2 =
      pendingDeposits actions := by
  refine foldl_keeps (fun removed : Actions × List (ProposalProcedure ProtocolParameterUpdate) =>
    pendingDeposits removed.1 + depositsOf removed.2) (fun removed id => ?_) ids (actions, [])
  unfold removeAction
  cases hlookup : removed.1.lookup id with
  | none => rfl
  | some action =>
    have herase := pendingDeposits_erase hlookup
    dsimp only
    rw [depositsOf_append_singleton]
    omega

theorem ratifyLoop_deposits :
    pendingDeposits (ratifyLoop currentEpoch snapshots drepActivity
        state).state.rest.governanceActions +
      depositsOf (ratifyLoop currentEpoch snapshots drepActivity state).refunds =
        pendingDeposits state.rest.governanceActions := by
  refine foldl_keeps (fun progress : RatifyProgress =>
    pendingDeposits progress.state.rest.governanceActions + depositsOf progress.refunds)
    (fun progress id => ?_) _ (.start state)
  unfold ratifyStep
  cases hlookup : progress.state.rest.governanceActions.lookup id with
  | none => rfl
  | some action =>
    dsimp only
    split
    · obtain ⟨-, -, hactions, -, -⟩ := enactStep_spec id action progress
      have hrefunds : (enactStep id action progress).refunds =
        progress.refunds ++ [action.proposal] := rfl
      have herase := pendingDeposits_erase hlookup
      rw [hactions, hrefunds, depositsOf_append_singleton]
      omega
    · rfl

theorem ratifyLoop_refunds_nil
    (hnone : (ratifyLoop currentEpoch snapshots drepActivity state).enactedIds.isEmpty) :
    (ratifyLoop currentEpoch snapshots drepActivity state).refunds = [] := by
  have hlengths : ((ratifyLoop currentEpoch snapshots drepActivity state).refunds.length : Int) -
      (ratifyLoop currentEpoch snapshots drepActivity state).enactedIds.length = 0 := by
    refine foldl_keeps (fun progress : RatifyProgress =>
      (progress.refunds.length : Int) - progress.enactedIds.length)
      (fun progress id => ?_) _ (.start state)
    unfold ratifyStep
    split
    · rfl
    · split
      · simp [enactStep]
      · rfl
  rw [List.isEmpty_iff.mp hnone] at hlengths
  simpa using hlengths

namespace Payout

/-- What has reached an account or stayed unclaimed. -/
def disbursed (payout : Payout) : Nat := payout.paid.toNat + payout.unclaimed.toNat

theorem disbursed_proposals (proposals : List (ProposalProcedure ProtocolParameterUpdate))
    (payout : Payout) (hfits : payout.disbursed + depositsOf proposals < 2 ^ 64) :
    (proposals.foldl payProposal payout).disbursed = payout.disbursed + depositsOf proposals := by
  refine (measure_foldl_of_le payProposal (fun _ => True) disbursed (·.deposit.toNat)
    (2 ^ 64 - 1) proposals (fun payout proposal _ _ hword => ⟨trivial, ?_⟩) trivial
    (Nat.le_sub_one_of_lt hfits)).2
  unfold payProposal pay disbursed at *
  split
  · dsimp only
    rw [toNat_saturatingAdd]
    omega
  · dsimp only
    rw [toNat_saturatingAdd]
    omega

end Payout

section

variable {state}

theorem removeWithRefunds_reduction
    (hfits : pendingDeposits state.rest.governanceActions < 2 ^ 64) :
    pendingDeposits (removeWithRefunds ids state).1.rest.governanceActions +
        (removeWithRefunds ids state).2.disbursed =
      pendingDeposits state.rest.governanceActions := by
  have hdeposits := removeActions_deposits ids state.rest.governanceActions
  have hstart : (Payout.start state.rest.rewardAccounts).disbursed = 0 := rfl
  have hpaid := Payout.disbursed_proposals (removeActions ids state.rest.governanceActions).2
    (.start state.rest.rewardAccounts) (by omega)
  rw [hstart, Nat.zero_add] at hpaid
  exact (congrArg _ hpaid).trans hdeposits

theorem pruneDescendants_reduction
    (hfits : pendingDeposits state.rest.governanceActions < 2 ^ 64) :
    pendingDeposits (pruneDescendants expiredIds state).1.rest.governanceActions +
        (pruneDescendants expiredIds state).2.disbursed =
      pendingDeposits state.rest.governanceActions := by
  unfold pruneDescendants
  split
  · rfl
  · exact removeWithRefunds_reduction _ hfits

/-- What ratification reports as refunded and unclaimed are the deposits that are gone. -/
theorem ratifyAndEnact_reduction (hfits : pendingDeposits state.rest.governanceActions < 2 ^ 64) :
    let ratified := ratifyAndEnact currentEpoch snapshots drepActivity state
    pendingDeposits ratified.1.rest.governanceActions +
        (ratified.2.enactedDepositRefunds.toNat +
          ratified.2.removedDueToEnactmentDepositRefunds.toNat +
          ratified.2.unclaimedDeposits.toNat) =
      pendingDeposits state.rest.governanceActions := by
  have hloop := ratifyLoop_deposits currentEpoch snapshots drepActivity state
  have hnil := ratifyLoop_refunds_nil currentEpoch snapshots drepActivity state
  dsimp only [ratifyAndEnact]
  generalize ratifyLoop currentEpoch snapshots drepActivity state = progress at hloop hnil ⊢
  by_cases hnone : progress.enactedIds.isEmpty
  · rw [hnil hnone] at hloop
    simpa [hnone, depositsOf] using hloop
  · have hdeposits := removeActions_deposits
      (removeLineageConflictingProposals progress.state.rest.governanceActions
        progress.state.rest.other.enactState progress.enactedPurposes)
      progress.state.rest.governanceActions
    generalize removeActions _ _ = removed at hdeposits ⊢
    have hstart : (Payout.start progress.state.rest.rewardAccounts).disbursed = 0 := rfl
    have henacted := Payout.disbursed_proposals progress.refunds
      (.start progress.state.rest.rewardAccounts) (by omega)
    generalize progress.refunds.foldl Payout.payProposal _ = enacted at henacted ⊢
    -- the second payout starts with what the first left unclaimed
    have hreset : Payout.disbursed { enacted with paid := 0 } = enacted.unclaimed.toNat :=
      Nat.zero_add _
    unfold Payout.disbursed at henacted hstart
    have hpaid := Payout.disbursed_proposals removed.2
      { enacted with paid := 0 } (by omega)
    rw [hreset] at hpaid
    unfold Payout.disbursed at hpaid
    simp only [hnone, Bool.false_eq_true, if_false]
    dsimp only [BoundaryState.withRefunds]
    omega

/-- The deposits that reached no account. -/
def GovernanceRefunds.unclaimed (refunds : GovernanceRefunds) : Nat :=
  refunds.expired.unclaimed.toNat + refunds.descendants.unclaimed.toNat +
    refunds.ratified.unclaimedDeposits.toNat

/-- **What governance takes off the list of proposals it takes out of the pot**, and no deposit
without an account is lost. -/
theorem governBoundary_reduction (hfits : pendingDeposits state.rest.governanceActions < 2 ^ 64) :
    let governed := governBoundary newEpoch snapshots drepActivity state
    pendingDeposits governed.1.rest.governanceActions + governed.2.2.totalReduction.toNat =
        pendingDeposits state.rest.governanceActions ∧
      governed.2.2.totalUnclaimed.toNat = governed.2.2.unclaimed := by
  have hratified := ratifyAndEnact_reduction newEpoch snapshots drepActivity hfits
  dsimp only [governBoundary, removeExpiredGovernanceActions] at hratified ⊢
  generalize ratifyAndEnact newEpoch snapshots drepActivity state = ratified at hratified ⊢
  generalize expiredActions newEpoch ratified.1.rest.governanceActions = ids
  have hexpired := @removeWithRefunds_reduction ids ratified.1 (by omega)
  generalize removeWithRefunds ids ratified.1 = expired at hexpired ⊢
  have hpruned := @pruneDescendants_reduction ids expired.1 (by omega)
  generalize pruneDescendants ids expired.1 = pruned at hpruned ⊢
  unfold Payout.disbursed at hexpired hpruned
  unfold GovernanceRefunds.totalReduction GovernanceRefunds.totalUnclaimed
    GovernanceRefunds.unclaimed
  dsimp only
  rw [toNat_foldl_saturatingAdd, toNat_saturatingAdd, toNat_saturatingAdd]
  simp only [List.map_cons, List.map_nil, List.sum_cons, List.sum_nil, UInt64.toNat_zero]
  omega

end

end Yggdrasil.Ledger
