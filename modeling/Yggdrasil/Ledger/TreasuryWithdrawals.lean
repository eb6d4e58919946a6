import Yggdrasil.Ledger.EpochRefunds

/-!
# Withdrawals from the treasury

An action may withdraw from the treasury if its amounts, added up in a machine word, are within a
budget (`withdrawal_can_withdraw`).  The budget starts at the treasury and shrinks by that word with
every enactment (`ratify_and_enact`).  The debits are made account by account and saturate
(`enact_gov_action_at_epoch`).

`withdrawals_covered_iff` says that the treasury covers what one call enacts exactly if no sum of
amounts wraps; `wrappedWithdrawal_overdraws` has two amounts whose sum is zero as a word.
-/

namespace Yggdrasil.Ledger

open Library KeyedMap

/-- What an action withdraws for accounts, registered or not, as an integer. -/
def withdrawalSum : Action → Nat
  | .treasuryWithdrawals withdrawals _ => total UInt64.toNat withdrawals
  | _ => 0

def withdrawn (proposals : List (ProposalProcedure ProtocolParameterUpdate)) : Nat :=
  (proposals.map fun proposal => withdrawalSum proposal.govAction).sum

theorem toNat_proposedWithdrawal (action : Action) :
    (proposedWithdrawal action).toNat = withdrawalSum action % 2 ^ 64 := by
  cases action with
  | treasuryWithdrawals withdrawals script =>
    dsimp only [proposedWithdrawal]
    rw [toNat_foldl_add, List.map_map, UInt64.toNat_zero, zero_add]
    rfl
  | _ => rfl

/-! ## Debits -/

/-- What the treasury lacks for a debit: one that saturates lacks something. -/
def debitShortfall (paid : RewardAccounts × UInt64 × UInt64)
    (withdrawal : RewardAccount × UInt64) : Nat :=
  if withdrawal.2 = 0 ∨ (paid.1.lookup withdrawal.1).isNone then 0
  else withdrawal.2.toNat - paid.2.1.toNat

/-- What the treasury lacks for the debits of an enactment. -/
def enactShortfall (action : Action) (state : Enactment) : Nat :=
  match action with
  | .treasuryWithdrawals withdrawals _ =>
    sumOver payWithdrawal debitShortfall (state.rewardAccounts, state.accounting.treasury, 0)
      (pairs withdrawals)
  | _ => 0

theorem payWithdrawals_covered (withdrawals : List (RewardAccount × UInt64))
    (paid : RewardAccounts × UInt64 × UInt64)
    (hcovered : (withdrawals.map (·.2.toNat)).sum ≤ paid.2.1.toNat) :
    sumOver payWithdrawal debitShortfall paid withdrawals = 0 ∧
      paid.2.1.toNat ≤ (withdrawals.foldl payWithdrawal paid).2.1.toNat +
        (withdrawals.map (·.2.toNat)).sum := by
  induction withdrawals generalizing paid with
  | nil => exact ⟨rfl, Nat.le_add_right _ _⟩
  | cons withdrawal rest ih =>
    rw [List.map_cons, List.sum_cons] at hcovered ⊢
    have hdebit : debitShortfall paid withdrawal = 0 ∧
        paid.2.1.toNat ≤ (payWithdrawal paid withdrawal).2.1.toNat + withdrawal.2.toNat := by
      obtain ⟨accounts, treasury, total⟩ := paid
      unfold debitShortfall payWithdrawal
      dsimp only at hcovered ⊢
      split
      · exact ⟨rfl, Nat.le_add_right _ _⟩
      · rw [toNat_saturatingSub]
        omega
    obtain ⟨hnone, hleft⟩ := ih (payWithdrawal paid withdrawal) (by omega)
    rw [sumOver, hdebit.1, hnone, List.foldl_cons]
    exact ⟨rfl, by omega⟩

theorem enactGovAction_covered (id : GovActionId) (action : Action) (state : Enactment)
    (hcovered : withdrawalSum action ≤ state.accounting.treasury.toNat) :
    enactShortfall action state = 0 ∧ state.accounting.treasury.toNat ≤
      (enactGovAction id action state).1.accounting.treasury.toNat + withdrawalSum action := by
  cases action with
  | treasuryWithdrawals withdrawals script =>
    have hsum : ((pairs withdrawals).map (·.2.toNat)).sum =
        total UInt64.toNat withdrawals := by
      rw [pairs, List.map_map]
      rfl
    dsimp only [withdrawalSum] at hcovered ⊢
    rw [← hsum] at hcovered ⊢
    exact payWithdrawals_covered (pairs withdrawals) (state.rewardAccounts, _, 0) hcovered
  | _ => exact ⟨rfl, Nat.le_add_right _ _⟩

/-! ## Ratification -/

/-- What the treasury lacks for one action of the ratification. -/
def ratifyShortfall (weights : VotingWeights) (currentEpoch : EpochNo) (progress : RatifyProgress)
    (id : GovActionId) : Nat :=
  match progress.state.rest.governanceActions.lookup id with
  | none => 0
  | some action =>
    if passesChecks weights currentEpoch progress action then
      enactShortfall action.proposal.govAction progress.state.enactment
    else 0

/-- The treasury covers the budget, and the budget has paid for what is enacted. -/
structure Covered (treasury : Nat) (progress : RatifyProgress) : Prop where
  budget : progress.withdrawalBudget.toNat ≤ progress.state.rest.accounting.treasury.toNat
  paid : progress.withdrawalBudget.toNat + withdrawn progress.refunds = treasury

section

variable (weights : VotingWeights) (currentEpoch : EpochNo) {treasury : Nat}
  {progress : RatifyProgress}

/-- An action that passes its checks is within the budget, which pays for it, unless its sum
wraps. -/
theorem withdrawalSum_le_budget {action : ActionState}
    (hpasses : passesChecks weights currentEpoch progress action)
    (hfits : withdrawalSum action.proposal.govAction < 2 ^ 64) (id : GovActionId) :
    withdrawalSum action.proposal.govAction ≤ progress.withdrawalBudget.toNat ∧
      (enactStep id action progress).withdrawalBudget.toNat =
        progress.withdrawalBudget.toNat - withdrawalSum action.proposal.govAction := by
  have hword : (proposedWithdrawal action.proposal.govAction).toNat =
      withdrawalSum action.proposal.govAction := by
    rw [toNat_proposedWithdrawal, Nat.mod_eq_of_lt hfits]
  simp only [passesChecks, withdrawalCanWithdraw, Bool.and_eq_true, decide_eq_true_eq] at hpasses
  exact ⟨hword ▸ hpasses.1.2, hword ▸ toNat_saturatingSub _ _⟩

theorem Covered.ratifyStep (hcovered : Covered treasury progress) (id : GovActionId)
    (hfits : ∀ proposal ∈ (ratifyStep weights currentEpoch progress id).refunds,
      withdrawalSum proposal.govAction < 2 ^ 64) :
    ratifyShortfall weights currentEpoch progress id = 0 ∧
      Covered treasury (ratifyStep weights currentEpoch progress id) := by
  unfold Ledger.ratifyStep ratifyShortfall at *
  cases hlookup : progress.state.rest.governanceActions.lookup id with
  | none => exact ⟨rfl, hcovered⟩
  | some action =>
    rw [hlookup] at hfits
    dsimp only at hfits ⊢
    by_cases hpasses : passesChecks weights currentEpoch progress action
    · rw [if_pos hpasses] at hfits
      rw [if_pos hpasses, if_pos hpasses]
      obtain ⟨hguard, hspent⟩ := withdrawalSum_le_budget weights currentEpoch hpasses
        (hfits action.proposal (by simp [enactStep])) id
      have hrefunds : withdrawn (enactStep id action progress).refunds =
          withdrawn progress.refunds + withdrawalSum action.proposal.govAction := by
        simp [withdrawn, enactStep]
      obtain ⟨hnone, hleft⟩ := enactGovAction_covered id action.proposal.govAction
        progress.state.enactment (hguard.trans hcovered.budget)
      obtain ⟨-, hpots, -, -, -⟩ := enactStep_spec id action progress
      have hpaid := hcovered.paid
      refine ⟨hnone, ?_, by omega⟩
      rw [hpots, hspent]
      exact Nat.sub_le_of_le_add (hcovered.budget.trans hleft)
    · rw [if_neg hpasses, if_neg hpasses]
      exact ⟨rfl, hcovered.budget, hcovered.paid⟩

theorem refunds_subset_foldl (ids : List GovActionId) (progress : RatifyProgress) :
    progress.refunds ⊆ (ids.foldl (ratifyStep weights currentEpoch) progress).refunds := by
  induction ids generalizing progress with
  | nil => exact List.Subset.refl _
  | cons id rest ih =>
    refine List.Subset.trans ?_ (ih _)
    unfold ratifyStep
    split
    · exact List.Subset.refl _
    · split
      · exact List.subset_append_left _ _
      · exact List.Subset.refl _

theorem Covered.ratify (ids : List GovActionId) (hcovered : Covered treasury progress)
    (hfits : ∀ proposal ∈ (ids.foldl (Ledger.ratifyStep weights currentEpoch) progress).refunds,
      withdrawalSum proposal.govAction < 2 ^ 64) :
    sumOver (Ledger.ratifyStep weights currentEpoch) (ratifyShortfall weights currentEpoch)
        progress ids = 0 ∧
      Covered treasury (ids.foldl (Ledger.ratifyStep weights currentEpoch) progress) := by
  induction ids generalizing progress with
  | nil => exact ⟨rfl, hcovered⟩
  | cons id rest ih =>
    obtain ⟨hnone, hnext⟩ := hcovered.ratifyStep weights currentEpoch id fun proposal hmem =>
      hfits proposal (refunds_subset_foldl weights currentEpoch rest _ hmem)
    obtain ⟨hlater, hfinal⟩ := ih hnext hfits
    rw [sumOver, hnone, hlater]
    exact ⟨rfl, hfinal⟩

end

/-- The proposals that one call of `ratify_and_enact` enacts: none without parameters. -/
def enactedProposals (currentEpoch : EpochNo) (snapshots : StakeSnapshots) (drepActivity : UInt64)
    (state : BoundaryState) : List (ProposalProcedure ProtocolParameterUpdate) :=
  if state.protocolParams.isNone then []
  else (ratifyLoop currentEpoch snapshots drepActivity state).refunds

/-- What the treasury lacks for the debits of one call of `ratify_and_enact`. -/
def treasuryShortfall (currentEpoch : EpochNo) (snapshots : StakeSnapshots) (drepActivity : UInt64)
    (state : BoundaryState) : Nat :=
  if state.protocolParams.isNone then 0
  else
    let weights := votingWeights state snapshots drepActivity
    sumOver (ratifyStep weights currentEpoch) (ratifyShortfall weights currentEpoch) (.start state)
      (ratificationOrder state.rest.governanceActions)

/-- **The treasury covers what is enacted, and every debit, exactly if no sum of amounts wraps.** -/
theorem withdrawals_covered_iff (currentEpoch : EpochNo) (snapshots : StakeSnapshots)
    (drepActivity : UInt64) (state : BoundaryState) :
    (withdrawn (enactedProposals currentEpoch snapshots drepActivity state) ≤
        state.rest.accounting.treasury.toNat ∧
      treasuryShortfall currentEpoch snapshots drepActivity state = 0) ↔
      ∀ proposal ∈ enactedProposals currentEpoch snapshots drepActivity state,
        withdrawalSum proposal.govAction < 2 ^ 64 := by
  unfold enactedProposals treasuryShortfall
  by_cases hparams : state.protocolParams.isNone
  · simp [hparams, withdrawn]
  · simp only [hparams]
    constructor
    · rintro ⟨hwithin, -⟩ proposal hmem
      have hterm := List.le_sum_of_mem
        (List.mem_map_of_mem (f := fun proposal => withdrawalSum proposal.govAction) hmem)
      have hword := state.rest.accounting.treasury.toNat_lt
      unfold withdrawn at hwithin
      omega
    · intro hfits
      have hstart : Covered state.rest.accounting.treasury.toNat (.start state) := ⟨le_rfl, rfl⟩
      obtain ⟨hnone, hcovered⟩ := hstart.ratify _ _ _ hfits
      exact ⟨(Nat.le_add_left _ _).trans_eq hcovered.paid, hnone⟩

/-- An account that payments are due to. -/
def luckyAccount : RewardAccount := ⟨0, .addrKeyHash 1⟩

/-- Five lovelace in the treasury, and an action with two amounts of `2^63`, one of them for a
registered account.  It needs no votes. -/
def wrappedState : BoundaryState :=
  { BoundaryState.new .conway with
    protocolParams := some { drepVotingThresholds := some { treasuryWithdrawal := ⟨0, 1⟩ } }
    rest := { (BoundaryState.new .conway).rest with
      accounting := ⟨5, 0⟩
      rewardAccounts := single luckyAccount ⟨0, none⟩
      governanceActions := single ⟨1, 0⟩
        (.newWithLifetime ⟨0, [], .treasuryWithdrawals ((single luckyAccount
          (2 ^ 63)).insert ⟨0, .addrKeyHash 2⟩ (2 ^ 63)) none, ⟨[], 0⟩⟩ 0 none) } }

theorem wrappedWithdrawal_overdraws :
    wrappedState.rest.accounting.treasury = 5 ∧
      withdrawn (enactedProposals 1 .new 0 wrappedState) = 2 ^ 64 ∧
      treasuryShortfall 1 .new 0 wrappedState = 2 ^ 63 - 5 := by
  decide +kernel

end Yggdrasil.Ledger
