import Yggdrasil.Ledger.Rewards.RewardBalance
import Yggdrasil.Ledger.TreasuryWithdrawals

/-!
# Lovelace at the epoch boundary

The boundary moves lovelace between reserves, treasury, reward accounts, deposit pot, donations
and fee pots with words that saturate or wrap.  While the total fits in a word no sum saturates:
what is added up is at most what is there.  So a stage conserves the total as soon as what it takes
is there, and `boundaryConservesAda` collects what has to be there: rewards that balance, reserves
for the instantaneous rewards and then for the expansion, transfers that cancel, deposits in the
pot, and treasury withdrawals whose sum is a word.
-/

namespace Yggdrasil.Ledger

open Library KeyedMap
open Rewards (EpochRewardDistribution)

/-! ## Payments -/

theorem totalBalance_modify {accounts : RewardAccounts} {account : RewardAccount} {amount : Nat}
    {raise : RewardAccountState → RewardAccountState}
    (hraise : ∀ state, state.balance.toNat + amount < 2 ^ 64 →
      (raise state).balance.toNat = state.balance.toNat + amount)
    (hthere : (accounts.lookup account).isSome)
    (hfits : totalBalance accounts + amount < 2 ^ 64) :
    totalBalance (modify account raise accounts) = totalBalance accounts + amount := by
  obtain ⟨state, hlookup⟩ := Option.isSome_iff_exists.mp hthere
  have hmodify := total_modify (·.balance.toNat) accounts account raise
  have herase := total_erase (·.balance.toNat) accounts account
  rw [amountAt_of_lookup hlookup] at herase
  rw [amountAt_of_lookup hlookup, amountAt_of_lookup hlookup] at hmodify
  unfold totalBalance at *
  have hraised := hraise state (by omega)
  omega

theorem totalBalance_credit {accounts : RewardAccounts} {account : RewardAccount}
    (hthere : (accounts.lookup account).isSome) (amount : UInt64)
    (hfits : totalBalance accounts + amount.toNat < 2 ^ 64) :
    totalBalance (accounts.credit account amount) = totalBalance accounts + amount.toNat := by
  refine totalBalance_modify (fun state hword => ?_) hthere hfits
  rw [toNat_saturatingAdd]
  omega

namespace Payout

/-- Balances and what is unclaimed. -/
def held (payout : Payout) : Nat := totalBalance payout.accounts + payout.unclaimed.toNat

theorem held_start (accounts : RewardAccounts) :
    (start accounts).held = totalBalance accounts := rfl

theorem held_pay (target : Option RewardAccount) {amount : UInt64} {payout : Payout}
    (hfits : payout.held + amount.toNat < 2 ^ 64) :
    (payout.pay target amount).held = payout.held + amount.toNat := by
  unfold pay held at *
  cases htarget : target.filter fun account => (payout.accounts.lookup account).isSome with
  | none =>
    dsimp only
    rw [toNat_saturatingAdd]
    omega
  | some account =>
    have hcredit := totalBalance_credit (Option.filter_eq_some_iff.mp htarget).2 amount (by omega)
    dsimp only
    omega

theorem held_foldl {Item : Type} (pay : Payout → Item → Payout) (amount : Item → UInt64)
    (hpay : ∀ payout item, ∃ target, pay payout item = payout.pay target (amount item))
    (items : List Item) (payout : Payout)
    (hfits : payout.held + (items.map fun item => (amount item).toNat).sum < 2 ^ 64) :
    (items.foldl pay payout).held =
      payout.held + (items.map fun item => (amount item).toNat).sum := by
  refine (measure_foldl_of_le pay (fun _ => True) held (fun item => (amount item).toNat)
    (2 ^ 64 - 1) items (fun payout item _ _ hword => ⟨trivial, ?_⟩) trivial
    (Nat.le_sub_one_of_lt hfits)).2
  obtain ⟨target, htarget⟩ := hpay payout item
  rw [htarget]
  exact held_pay target (by omega)

theorem held_proposals (proposals : List (ProposalProcedure ProtocolParameterUpdate))
    (payout : Payout) (hfits : payout.held + depositsOf proposals < 2 ^ 64) :
    (proposals.foldl payProposal payout).held = payout.held + depositsOf proposals :=
  held_foldl payProposal (·.deposit) (fun _ _ => ⟨_, rfl⟩) proposals payout hfits

end Payout

/-! ## Rewards -/

theorem sum_payments {Key : Type} (amounts : KeyedMap Key UInt64) :
    (((pairs amounts).filter (·.2 ≠ 0)).map (·.2.toNat)).sum = total UInt64.toNat amounts := by
  rw [sum_filter_ne_zero UInt64.toNat_zero, pairs, List.map_map]
  rfl

theorem held_distributeRewards {accounts : RewardAccounts} {dist : EpochRewardDistribution}
    (hfits : totalBalance accounts + dist.credited < 2 ^ 64) :
    (distributeRewards accounts dist).held = totalBalance accounts + dist.credited := by
  unfold EpochRewardDistribution.credited at *
  have hleaders := Payout.held_foldl Payout.payAccount Prod.snd (fun _ _ => ⟨_, rfl⟩)
    ((pairs dist.leaderDeltas).filter (·.2 ≠ 0)) (.start accounts)
  rw [sum_payments, Payout.held_start] at hleaders
  have hmembers := Payout.held_foldl Payout.payCredential Prod.snd (fun _ _ => ⟨_, rfl⟩)
    ((pairs dist.rewardDeltas).filter (·.2 ≠ 0))
    (((pairs dist.leaderDeltas).filter (·.2 ≠ 0)).foldl Payout.payAccount (.start accounts))
  rw [sum_payments, hleaders (by omega)] at hmembers
  rw [← Nat.add_assoc]
  exact hmembers (by omega)

/-! ## Instantaneous rewards -/

theorem RewardAccounts.lookup_lastAccountOf {accounts : RewardAccounts}
    {credential : StakeCredential} {account : RewardAccount}
    (hlast : accounts.lastAccountOf credential = some account) :
    (accounts.lookup account).isSome := by
  obtain ⟨network, hmax, rfl⟩ := Option.map_eq_some_iff.mp hlast
  have hlarger : Std.MaxEqOr UInt8 := ⟨fun a b => by
    change (if a ≤ b then b else a) = a ∨ (if a ≤ b then b else a) = b
    split
    · exact .inr rfl
    · exact .inl rfl⟩
  obtain ⟨found, hfound, rfl⟩ := List.mem_map.mp (List.max?_mem hmax)
  obtain ⟨hkey, hcredential⟩ := List.mem_filter.mp hfound
  rw [← of_decide_eq_true hcredential]
  exact AList.lookup_isSome.mpr hkey

/-- A signed amount as a word: the amount itself unless it is negative. -/
def amountWord (amount : Int64) : Nat := amount.toUInt64.toNat

theorem toInt_of_amountWord_lt {amount : Int64} (hsmall : amountWord amount < 2 ^ 63) :
    amount.toInt = amountWord amount := by
  have hword : amount.toBitVec.toNat < 2 ^ 63 := hsmall
  exact BitVec.toInt_eq_toNat_of_lt (by omega)

theorem amountWord_add {a b : Int64} (hfits : amountWord a + amountWord b < 2 ^ 64) :
    amountWord (a + b) = amountWord a + amountWord b := by
  unfold amountWord at *
  rw [Int64.toUInt64_add, UInt64.toNat_add, Nat.mod_eq_of_lt hfits]

namespace InstantaneousRewards

variable (rewards : InstantaneousRewards) (accounts : RewardAccounts)

/-- What a pot is asked for. -/
def askedOf (pot : MirPot) : Nat := total amountWord (rewards.ofPot pot)

/-- What a pot pays to the credentials with an account. -/
def paidBy (pot : MirPot) : Nat :=
  ((rewards.payable accounts pot).map fun entry => amountWord entry.2).sum

theorem paidBy_le (pot : MirPot) : rewards.paidBy accounts pot ≤ rewards.askedOf pot := by
  have hsub : ((rewards.payable accounts pot).map fun entry => amountWord entry.2).Sublist
      ((pairs (rewards.ofPot pot)).map fun entry => amountWord entry.2) :=
    List.filter_sublist.map _
  refine (hsub.sum_le_sum fun _ _ => Nat.zero_le _).trans_eq ?_
  rw [pairs, List.map_map]
  rfl

theorem toInt_totalOf (pot : MirPot) (hsmall : rewards.paidBy accounts pot < 2 ^ 63) :
    (rewards.totalOf accounts pot).toInt = rewards.paidBy accounts pot := by
  have hword : amountWord (rewards.totalOf accounts pot) = rewards.paidBy accounts pot := by
    have hsum : (((rewards.payable accounts pot).map (·.2)).map amountWord).sum =
        rewards.paidBy accounts pot := by
      rw [List.map_map]
      rfl
    have hfits : amountWord 0 + rewards.paidBy accounts pot ≤ 2 ^ 64 - 1 :=
      (Nat.zero_add _).trans_le (by omega)
    rw [← hsum] at hfits ⊢
    exact (measure_foldl_of_le (· + ·) (fun _ => True) amountWord amountWord (2 ^ 64 - 1) _
      (fun total amount _ _ hword => ⟨trivial, amountWord_add (by omega)⟩) trivial
      hfits).2.trans (Nat.zero_add _)
  rw [← hword]
  exact toInt_of_amountWord_lt (hword ▸ hsmall)

/-- The rewards of both pots by credential add up to what the pots pay, and each credential has an
account. -/
theorem total_combined
    (hfits : rewards.paidBy accounts .reserves + rewards.paidBy accounts .treasury < 2 ^ 63) :
    (∀ credential amount, (rewards.combined accounts).lookup credential = some amount →
        (accounts.lastAccountOf credential).isSome) ∧
      total amountWord (rewards.combined accounts) =
        rewards.paidBy accounts .reserves + rewards.paidBy accounts .treasury := by
  have hsum : ((rewards.payable accounts .reserves ++ rewards.payable accounts .treasury).map
      fun entry => amountWord entry.2).sum =
        rewards.paidBy accounts .reserves + rewards.paidBy accounts .treasury := by
    rw [List.map_append, List.sum_append]
    rfl
  have hempty : total amountWord (∅ : KeyedMap StakeCredential Int64) = 0 := rfl
  rw [← hsum, ← Nat.zero_add (List.sum _), ← hempty] at hfits ⊢
  refine measure_foldl_of_le _ (fun map => ∀ credential amount,
    map.lookup credential = some amount → (accounts.lastAccountOf credential).isSome)
    (total amountWord) (fun entry : StakeCredential × Int64 => amountWord entry.2) (2 ^ 63) _ ?_
    (fun _ _ hnone => by cases hnone) hfits.le
  intro map entry hmem hmap hword
  have hregistered : (accounts.lastAccountOf entry.1).isSome := by
    rcases List.mem_append.mp hmem with hmem | hmem
    · exact (List.mem_filter.mp hmem).2
    · exact (List.mem_filter.mp hmem).2
  refine ⟨forall_lookup_insert hmap hregistered, ?_⟩
  have hinsert := total_insert amountWord map entry.1 ((map.lookup entry.1).getD 0 + entry.2)
  have herase := total_erase amountWord map entry.1
  have hbefore : amountWord ((map.lookup entry.1).getD 0) = amountAt amountWord map entry.1 := by
    unfold amountAt
    cases map.lookup entry.1 with
    | none | some amount => rfl
  rw [amountWord_add (by omega)] at hinsert
  change total amountWord (map.insert entry.1 ((map.lookup entry.1).getD 0 + entry.2)) = _
  omega

theorem totalBalance_payments
    (hsmall : rewards.paidBy accounts .reserves + rewards.paidBy accounts .treasury < 2 ^ 63)
    (hfits : totalBalance accounts +
      (rewards.paidBy accounts .reserves + rewards.paidBy accounts .treasury) < 2 ^ 64) :
    totalBalance ((rewards.payments accounts).foldl (creditInstantaneous accounts) accounts) =
      totalBalance accounts +
        (rewards.paidBy accounts .reserves + rewards.paidBy accounts .treasury) := by
  obtain ⟨hregistered, htotal⟩ := rewards.total_combined accounts hsmall
  have hsum : ((rewards.payments accounts).map fun payment => amountWord payment.2).sum =
      rewards.paidBy accounts .reserves + rewards.paidBy accounts .treasury := by
    rw [← htotal, payments, sum_filter_ne_zero rfl, pairs, List.map_map]
    rfl
  rw [← hsum] at hfits ⊢
  refine (measure_foldl_of_le (creditInstantaneous accounts)
    (fun later => ∀ account, (accounts.lookup account).isSome → (later.lookup account).isSome)
    totalBalance (fun payment => amountWord payment.2) (2 ^ 64 - 1) _
    (fun later payment hmem hkeys hword => ?_) (fun _ => id) (Nat.le_sub_one_of_lt hfits)).2
  have hpart : amountWord payment.2 < 2 ^ 63 :=
    (List.le_sum_of_mem (List.mem_map_of_mem hmem)).trans_lt (hsum.trans_lt hsmall)
  obtain ⟨entry, hentry, rfl⟩ := List.mem_map.mp (List.mem_filter.mp hmem).1
  obtain ⟨account, haccount⟩ := Option.isSome_iff_exists.mp
    (hregistered entry.1 entry.2 (AList.mem_lookup_iff.mpr hentry))
  have hthere := hkeys account (RewardAccounts.lookup_lastAccountOf haccount)
  unfold creditInstantaneous
  dsimp only at hpart hword ⊢
  rw [haccount]
  refine ⟨fun other hother => ?_, totalBalance_modify (fun state hstate => ?_) hthere (by omega)⟩
  · exact (isSome_lookup_modify later account other).trans (hkeys other hother)
  · have hadd := natCast_saturatingAddSigned state.balance entry.2
    rw [toInt_of_amountWord_lt hpart, wordError_of_fits (by omega) (by omega)] at hadd
    dsimp only
    omega

/-- What the boundary needs of instantaneous rewards: no amount is negative and they stay small,
transfers cancel and do not exceed a pot, and the reserves cover what they are asked for and the
expansion. -/
structure Covered (accounting : AccountingState) (expansion : Nat) : Prop where
  amounts : rewards.askedOf .reserves + rewards.askedOf .treasury < 2 ^ 63
  transfers : rewards.deltaReserves.toInt + rewards.deltaTreasury.toInt = 0
  reserves : (expansion + rewards.askedOf .reserves : Int) ≤
    accounting.reserves.toNat + rewards.deltaReserves.toInt
  treasury : 0 ≤ accounting.treasury.toNat + rewards.deltaTreasury.toInt

end InstantaneousRewards

theorem toNat_settlePot (pot : UInt64) (delta : Int64) {paid : Int64} {amount : Nat}
    (hpaid : paid.toInt = amount) (hlow : amount ≤ pot.toNat + delta.toInt)
    (hhigh : pot.toNat + delta.toInt < 2 ^ 64) :
    ((settlePot pot delta paid).toNat : Int) = pot.toNat + delta.toInt - amount := by
  have hneg : (-paid).toInt = -amount := by
    have hlimit := paid.toInt_lt
    rw [Int64.toInt_neg, hpaid]
    apply Int.bmod_eq_of_le <;> omega
  have hfirst := natCast_saturatingAddSigned pot delta
  have hsecond := natCast_saturatingAddSigned (saturatingAddSigned pot delta) (-paid)
  rw [wordError_of_fits (by omega) hhigh] at hfirst
  rw [hneg, wordError_of_fits (by omega) (by omega)] at hsecond
  unfold settlePot
  omega

section

variable {rest : BoundaryRest}

theorem paidBy_le_of_canPay (pot : MirPot)
    (hsmall : rest.instantaneousRewards.paidBy rest.rewardAccounts pot < 2 ^ 63)
    (havailable : 0 ≤ (rest.accounting.ofPot pot).toNat +
      (rest.instantaneousRewards.delta pot).toInt)
    (hpays : rest.instantaneousRewards.sufficient rest.rewardAccounts rest.accounting pot) :
    rest.instantaneousRewards.paidBy rest.rewardAccounts pot ≤
      (rest.accounting.ofPot pot).toNat + (rest.instantaneousRewards.delta pot).toInt := by
  have htotal := rest.instantaneousRewards.toInt_totalOf rest.rewardAccounts pot hsmall
  simp only [InstantaneousRewards.sufficient, Bool.or_eq_true, decide_eq_true_eq,
    Int64.le_iff_toInt_le, htotal] at hpays
  have hzero : (0 : Int64).toInt = 0 := rfl
  omega

/-- **Instantaneous rewards conserve balances and pots**, and leave the expansion in the
reserves. -/
theorem applyMir_balance {expansion : Nat}
    (hcovered : rest.instantaneousRewards.Covered rest.accounting expansion)
    (hexpansion : expansion ≤ rest.accounting.reserves.toNat)
    (hpots : rest.accounting.treasury.toNat + rest.accounting.reserves.toNat < 2 ^ 64)
    (hfits : totalBalance rest.rewardAccounts + rest.accounting.treasury.toNat +
      rest.accounting.reserves.toNat < 2 ^ 64 + expansion) :
    let after := (applyMirAtEpochBoundary rest).1
    totalBalance after.rewardAccounts + after.accounting.treasury.toNat +
        after.accounting.reserves.toNat =
      totalBalance rest.rewardAccounts + rest.accounting.treasury.toNat +
        rest.accounting.reserves.toNat ∧
      expansion ≤ after.accounting.reserves.toNat := by
  obtain ⟨hamounts, htransfers, hreserves, htreasury⟩ := hcovered
  have hfromReserves := rest.instantaneousRewards.paidBy_le rest.rewardAccounts .reserves
  have hfromTreasury := rest.instantaneousRewards.paidBy_le rest.rewardAccounts .treasury
  unfold applyMirAtEpochBoundary
  by_cases hempty : rest.instantaneousRewards.isEmpty
  · simp only [hempty, if_true]
    exact ⟨trivial, hexpansion⟩
  simp only [hempty, Bool.false_eq_true, if_false]
  by_cases hcan : rest.instantaneousRewards.canPay rest.rewardAccounts rest.accounting
  · -- the code checks that the treasury covers what it pays
    have htreasuryPays := paidBy_le_of_canPay .treasury (by omega) htreasury
      (Bool.and_eq_true_iff.mp hcan).2
    have hpaidReserves := rest.instantaneousRewards.toInt_totalOf rest.rewardAccounts .reserves
      (by omega)
    have hpaidTreasury := rest.instantaneousRewards.toInt_totalOf rest.rewardAccounts .treasury
      (by omega)
    have hsettledReserves := toNat_settlePot rest.accounting.reserves
      rest.instantaneousRewards.deltaReserves hpaidReserves (by omega) (by omega)
    have hsettledTreasury := toNat_settlePot rest.accounting.treasury
      rest.instantaneousRewards.deltaTreasury hpaidTreasury htreasuryPays (by omega)
    dsimp only [AccountingState.ofPot, InstantaneousRewards.delta] at htreasuryPays
    have hcredited : totalBalance (if rest.instantaneousRewards.pays rest.rewardAccounts
        rest.accounting then (rest.instantaneousRewards.payments rest.rewardAccounts).foldl
          (creditInstantaneous rest.rewardAccounts) rest.rewardAccounts
        else rest.rewardAccounts) = totalBalance rest.rewardAccounts +
          (rest.instantaneousRewards.paidBy rest.rewardAccounts .reserves +
            rest.instantaneousRewards.paidBy rest.rewardAccounts .treasury) := by
      split
      · exact rest.instantaneousRewards.totalBalance_payments rest.rewardAccounts (by omega)
          (by omega)
      · rename_i hnone
        -- nothing is paid because nothing is due
        simp only [InstantaneousRewards.pays, hcan, Bool.true_and, Bool.or_eq_true,
          decide_eq_true_eq, not_or, not_not] at hnone
        rw [hnone.1] at hpaidReserves
        rw [hnone.2] at hpaidTreasury
        have hzero : (0 : Int64).toInt = 0 := rfl
        omega
    rw [if_pos hcan, hcredited]
    dsimp only
    omega
  · have hpays : rest.instantaneousRewards.pays rest.rewardAccounts rest.accounting = false := by
      simp [InstantaneousRewards.pays, hcan]
    simp only [hpays, hcan, Bool.false_eq_true, if_false]
    exact ⟨trivial, hexpansion⟩

end

/-! ## Pools and accounting -/

theorem retirePools_balance (epoch : EpochNo) {rest : BoundaryRest}
    (hpools : total (·.deposit.toNat) rest.poolState.entries ≤
      rest.depositPot.poolDeposits.toNat)
    (hfits : totalBalance rest.rewardAccounts + rest.depositPot.lovelace < 2 ^ 64) :
    let retired := retirePoolsWithRefunds epoch rest
    totalBalance retired.1.rewardAccounts + retired.2.2.unclaimed.toNat +
        retired.1.depositPot.lovelace =
      totalBalance rest.rewardAccounts + rest.depositPot.lovelace := by
  unfold retirePoolsWithRefunds
  by_cases hnone : ((rest.poolState.retiring epoch).map Prod.fst).isEmpty
  · simp [hnone, Payout.start]
  · have hrefunds := (retirementTotal_le epoch rest.poolState).trans hpools
    have hword := toNat_returnPools epoch rest.poolState rest.depositPot
    have hpaid := Payout.held_foldl Payout.payAccount Prod.snd (fun _ _ => ⟨_, rfl⟩)
      (retirementRefunds epoch rest.poolState) (.start rest.rewardAccounts)
    change _ → _ = _ + retirementTotal epoch rest.poolState at hpaid
    rw [Payout.held_start] at hpaid
    simp only [hnone, Bool.false_eq_true, if_false]
    rw [returnPools_eq]
    unfold DepositPot.lovelace at *
    have hheld := hpaid (show totalBalance rest.rewardAccounts +
      retirementTotal epoch rest.poolState < 2 ^ 64 by omega)
    unfold Payout.held at hheld
    dsimp only
    omega

def potsOf (accounting : AccountingState) : Nat :=
  accounting.treasury.toNat + accounting.reserves.toNat

theorem potsOf_settleAccounting {dist : EpochRewardDistribution}
    {unregistered unclaimedPools : UInt64} {accounting : AccountingState}
    (hreserves : dist.deltaReserves.toNat ≤ accounting.reserves.toNat)
    (hfits : potsOf accounting + dist.unclaimed.toNat + dist.treasuryCut.toNat +
      unregistered.toNat + unclaimedPools.toNat < 2 ^ 64 + dist.deltaReserves.toNat) :
    potsOf (settleAccounting dist unregistered unclaimedPools accounting) +
        dist.deltaReserves.toNat =
      potsOf accounting + dist.unclaimed.toNat + dist.treasuryCut.toNat +
        unregistered.toNat + unclaimedPools.toNat := by
  unfold potsOf settleAccounting at *
  simp only [toNat_saturatingAdd, toNat_saturatingSub]
  omega

/-! ## Governance -/

/-- Balances and treasury keep their sum when the treasury covers the withdrawals. -/
theorem payWithdrawals_balance (withdrawals : List (RewardAccount × UInt64))
    {paid : RewardAccounts × UInt64 × UInt64}
    (hcovered : (withdrawals.map (·.2.toNat)).sum ≤ paid.2.1.toNat)
    (hfits : totalBalance paid.1 + paid.2.1.toNat < 2 ^ 64) :
    totalBalance (withdrawals.foldl payWithdrawal paid).1 +
        (withdrawals.foldl payWithdrawal paid).2.1.toNat =
      totalBalance paid.1 + paid.2.1.toNat := by
  induction withdrawals generalizing paid with
  | nil => rfl
  | cons withdrawal rest ih =>
    rw [List.map_cons, List.sum_cons] at hcovered
    have hstep : totalBalance (payWithdrawal paid withdrawal).1 +
        (payWithdrawal paid withdrawal).2.1.toNat = totalBalance paid.1 + paid.2.1.toNat ∧
        paid.2.1.toNat ≤ (payWithdrawal paid withdrawal).2.1.toNat + withdrawal.2.toNat := by
      obtain ⟨accounts, treasury, sum⟩ := paid
      unfold payWithdrawal
      dsimp only at hcovered hfits ⊢
      split
      · exact ⟨rfl, Nat.le_add_right _ _⟩
      · rename_i hpays
        have hthere : (accounts.lookup withdrawal.1).isSome :=
          Option.isSome_iff_ne_none.mpr fun hnone => hpays (.inr (hnone ▸ rfl))
        have hcredit := totalBalance_credit hthere withdrawal.2 (by omega)
        dsimp only
        rw [toNat_saturatingSub]
        omega
    rw [List.foldl_cons, ih (by omega) (by omega), hstep.1]

theorem enactGovAction_balance (id : GovActionId) (action : Action) {state : Enactment}
    (hcovered : withdrawalSum action ≤ state.accounting.treasury.toNat)
    (hfits : totalBalance state.rewardAccounts + potsOf state.accounting < 2 ^ 64) :
    totalBalance (enactGovAction id action state).1.rewardAccounts +
        potsOf (enactGovAction id action state).1.accounting =
      totalBalance state.rewardAccounts + potsOf state.accounting := by
  cases action with
  | treasuryWithdrawals withdrawals script =>
    have hsum : ((pairs withdrawals).map (·.2.toNat)).sum = total UInt64.toNat withdrawals := by
      rw [pairs, List.map_map]
      rfl
    unfold potsOf at *
    have hpaid := @payWithdrawals_balance (pairs withdrawals)
      (state.rewardAccounts, state.accounting.treasury, 0) (hsum.trans_le hcovered)
      (by dsimp only; omega)
    dsimp only [enactGovAction] at hpaid ⊢
    linarith only [hpaid]
  | _ => rfl

/-- What ratification keeps: a budget within the treasury, pending withdrawals whose sum is a
word, and the balances with the pots. -/
structure Ratifying (wealth : Nat) (progress : RatifyProgress) : Prop where
  budget : progress.withdrawalBudget.toNat ≤ progress.state.rest.accounting.treasury.toNat
  withdrawals : ∀ id action, progress.state.rest.governanceActions.lookup id = some action →
    withdrawalSum action.proposal.govAction < 2 ^ 64
  wealth : totalBalance progress.state.rest.rewardAccounts +
    potsOf progress.state.rest.accounting = wealth

theorem Ratifying.step {wealth : Nat} (hword : wealth < 2 ^ 64) (weights : VotingWeights)
    (currentEpoch : EpochNo) {progress : RatifyProgress} (h : Ratifying wealth progress)
    (id : GovActionId) : Ratifying wealth (ratifyStep weights currentEpoch progress id) := by
  obtain ⟨hbudget, hwithdrawals, hwealth⟩ := h
  unfold ratifyStep
  cases hlookup : progress.state.rest.governanceActions.lookup id with
  | none => exact ⟨hbudget, hwithdrawals, hwealth⟩
  | some action =>
    dsimp only
    split
    · rename_i hpasses
      obtain ⟨hguard, hspent⟩ := withdrawalSum_le_budget weights currentEpoch hpasses
        (hwithdrawals id action hlookup) id
      obtain ⟨haccounts, hpots, hactions, -, -⟩ := enactStep_spec id action progress
      obtain ⟨-, hleft⟩ := enactGovAction_covered id action.proposal.govAction
        progress.state.enactment (hguard.trans hbudget)
      refine ⟨?_, ?_, ?_⟩
      · rw [hpots, hspent]
        exact Nat.sub_le_of_le_add (hbudget.trans hleft)
      · rw [hactions]
        exact forall_lookup_erase hwithdrawals id
      · rw [haccounts, hpots]
        exact (enactGovAction_balance id action.proposal.govAction (hguard.trans hbudget)
          (hwealth.trans_lt hword)).trans hwealth
    · exact ⟨hbudget, hwithdrawals, hwealth⟩

section

variable (newEpoch currentEpoch : EpochNo) (snapshots : StakeSnapshots) (drepActivity : UInt64)
  (ids : List GovActionId) {state : BoundaryState}

theorem ratifyLoop_wealth
    (hwithdrawals : ∀ id action, state.rest.governanceActions.lookup id = some action →
      withdrawalSum action.proposal.govAction < 2 ^ 64)
    (hfits : totalBalance state.rest.rewardAccounts + potsOf state.rest.accounting < 2 ^ 64) :
    Ratifying (totalBalance state.rest.rewardAccounts + potsOf state.rest.accounting)
      (ratifyLoop currentEpoch snapshots drepActivity state) :=
  List.foldlRecOn (motive := Ratifying _) _ _ ⟨le_rfl, hwithdrawals, rfl⟩
    fun _ hprogress id _ => hprogress.step hfits _ _ id

theorem removeWithRefunds_balance
    (hfits : totalBalance state.rest.rewardAccounts +
      pendingDeposits state.rest.governanceActions < 2 ^ 64) :
    let removed := removeWithRefunds ids state
    totalBalance removed.1.rest.rewardAccounts + removed.2.unclaimed.toNat +
        pendingDeposits removed.1.rest.governanceActions =
      totalBalance state.rest.rewardAccounts + pendingDeposits state.rest.governanceActions := by
  have hdeposits := removeActions_deposits ids state.rest.governanceActions
  have hpaid := Payout.held_proposals (removeActions ids state.rest.governanceActions).2
    (.start state.rest.rewardAccounts)
  rw [Payout.held_start] at hpaid
  have hheld := hpaid (by omega)
  dsimp only [removeWithRefunds, BoundaryState.withRefunds]
  unfold Payout.held at hheld
  omega

theorem pruneDescendants_balance
    (hfits : totalBalance state.rest.rewardAccounts +
      pendingDeposits state.rest.governanceActions < 2 ^ 64) :
    let pruned := pruneDescendants ids state
    totalBalance pruned.1.rest.rewardAccounts + pruned.2.unclaimed.toNat +
        pendingDeposits pruned.1.rest.governanceActions =
      totalBalance state.rest.rewardAccounts + pendingDeposits state.rest.governanceActions := by
  unfold pruneDescendants
  split
  · rfl
  · exact removeWithRefunds_balance _ hfits

theorem pruneDescendants_accounting :
    (pruneDescendants ids state).1.rest.accounting = state.rest.accounting := by
  unfold pruneDescendants
  split <;> rfl

theorem ratifyAndEnact_balance
    (hwithdrawals : ∀ id action, state.rest.governanceActions.lookup id = some action →
      withdrawalSum action.proposal.govAction < 2 ^ 64)
    (hfits : totalBalance state.rest.rewardAccounts + potsOf state.rest.accounting +
      pendingDeposits state.rest.governanceActions < 2 ^ 64) :
    let ratified := ratifyAndEnact currentEpoch snapshots drepActivity state
    totalBalance ratified.1.rest.rewardAccounts + potsOf ratified.1.rest.accounting +
        ratified.2.unclaimedDeposits.toNat + pendingDeposits ratified.1.rest.governanceActions =
      totalBalance state.rest.rewardAccounts + potsOf state.rest.accounting +
        pendingDeposits state.rest.governanceActions := by
  have hwealth := (ratifyLoop_wealth currentEpoch snapshots drepActivity hwithdrawals
    (by omega)).wealth
  have hloop := ratifyLoop_deposits currentEpoch snapshots drepActivity state
  have hnil := ratifyLoop_refunds_nil currentEpoch snapshots drepActivity state
  dsimp only [ratifyAndEnact]
  generalize ratifyLoop currentEpoch snapshots drepActivity state = progress
    at hwealth hloop hnil ⊢
  by_cases hnone : progress.enactedIds.isEmpty
  · have hnothing : depositsOf progress.refunds = 0 := by
      rw [hnil hnone]
      rfl
    simp only [hnone, if_true, UInt64.toNat_zero]
    omega
  · have hdeposits := removeActions_deposits
      (removeLineageConflictingProposals progress.state.rest.governanceActions
        progress.state.rest.other.enactState progress.enactedPurposes)
      progress.state.rest.governanceActions
    generalize removeActions _ _ = removed at hdeposits ⊢
    have henacted := Payout.held_proposals progress.refunds
      (.start progress.state.rest.rewardAccounts)
    rw [Payout.held_start] at henacted
    have hheld := henacted (by omega)
    generalize progress.refunds.foldl Payout.payProposal _ = enacted at hheld ⊢
    have hreset : Payout.held { enacted with paid := 0 } = enacted.held := rfl
    have hpaid := Payout.held_proposals removed.2 { enacted with paid := 0 }
    rw [hreset] at hpaid
    have hpaidHeld := hpaid (by omega)
    simp only [hnone, Bool.false_eq_true, if_false]
    dsimp only [BoundaryState.withRefunds]
    unfold Payout.held at hpaidHeld hheld
    omega

/-- **Governance conserves** balances, pots and deposits. -/
theorem governBoundary_balance
    (hwithdrawals : ∀ id action, state.rest.governanceActions.lookup id = some action →
      withdrawalSum action.proposal.govAction < 2 ^ 64)
    (hfits : totalBalance state.rest.rewardAccounts + potsOf state.rest.accounting +
      pendingDeposits state.rest.governanceActions < 2 ^ 64) :
    let governed := governBoundary newEpoch snapshots drepActivity state
    totalBalance governed.1.rest.rewardAccounts + potsOf governed.1.rest.accounting +
        governed.2.2.unclaimed + pendingDeposits governed.1.rest.governanceActions =
      totalBalance state.rest.rewardAccounts + potsOf state.rest.accounting +
        pendingDeposits state.rest.governanceActions := by
  have hratified := ratifyAndEnact_balance newEpoch snapshots drepActivity hwithdrawals hfits
  dsimp only [governBoundary, removeExpiredGovernanceActions,
    GovernanceRefunds.unclaimed] at hratified ⊢
  generalize ratifyAndEnact newEpoch snapshots drepActivity state = ratified at hratified ⊢
  generalize expiredActions newEpoch ratified.1.rest.governanceActions = ids
  have hexpired := @removeWithRefunds_balance ids ratified.1 (by omega)
  have hpots : (removeWithRefunds ids ratified.1).1.rest.accounting =
    ratified.1.rest.accounting := rfl
  generalize removeWithRefunds ids ratified.1 = expired at hexpired hpots ⊢
  have hpruned := @pruneDescendants_balance ids expired.1 (by omega)
  rw [pruneDescendants_accounting, hpots]
  omega

end

/-! ## The boundary -/

theorem DepositPot.toNat_total (pot : DepositPot) (hfits : pot.lovelace < 2 ^ 64) :
    pot.total.toNat = pot.lovelace := by
  have hword := toNat_foldl_saturatingAdd
    [pot.poolDeposits, pot.drepDeposits, pot.proposalDeposits] pot.keyDeposits
  simp only [List.map_cons, List.map_nil, List.sum_cons, List.sum_nil] at hword
  unfold lovelace at *
  refine hword.trans ?_
  omega

/-- Closing governance moves unclaimed deposits and donations into the treasury, and the refunds
out of the pot. -/
theorem closeGovernance_balance {refunds : GovernanceRefunds} {rest : BoundaryRest}
    (hcovered : refunds.totalReduction.toNat ≤ rest.depositPot.proposalDeposits.toNat)
    (hfits : potsOf rest.accounting + refunds.totalUnclaimed.toNat + rest.utxosDonation.toNat <
      2 ^ 64) :
    potsOf (closeGovernance refunds rest).accounting =
        potsOf rest.accounting + refunds.totalUnclaimed.toNat + rest.utxosDonation.toNat ∧
      (closeGovernance refunds rest).depositPot.lovelace + refunds.totalReduction.toNat =
        rest.depositPot.lovelace := by
  have hpot := DepositPot.lovelace_setDeposits rest.depositPot
    (saturatingSub rest.depositPot.proposalDeposits refunds.totalReduction) .proposal
  have hreturn : (closeGovernance refunds rest).depositPot = rest.depositPot.setDeposits
    (saturatingSub rest.depositPot.proposalDeposits refunds.totalReduction) .proposal := rfl
  rw [hreturn]
  unfold potsOf closeGovernance at *
  simp only [toNat_saturatingAdd, toNat_saturatingSub, DepositPot.deposits] at hpot ⊢
  omega

/-- The lovelace outside the UTxO. -/
def boundaryAda (state : BoundaryState) (snapshots : StakeSnapshots) : Nat :=
  state.rest.accounting.reserves.toNat + state.rest.accounting.treasury.toNat +
    totalBalance state.rest.rewardAccounts + state.rest.depositPot.total.toNat +
    state.rest.utxosDonation.toNat + snapshots.feePot.toNat + snapshots.previousFeePot.toNat

/-- Inputs of the reward calculation for which it balances: rates up to one, a snapshot whose
owners are listed once and whose stake fits, and performance that is not rounded up. -/
structure RewardInputs (state : BoundaryState) (snapshots : StakeSnapshots) : Prop where
  rates : ∀ previous ∈ state.previousProtocolParams,
    previous.rho.numerator ≤ previous.rho.denominator ∧
      previous.tau.numerator ≤ previous.tau.denominator
  owners_nodup : ∀ pool params, snapshots.go.poolParams.lookup pool = some params →
    params.poolOwners.Nodup
  active_lt : Rewards.activeStake snapshots.go < 2 ^ 64
  active_le_circulation : 0 < state.rest.other.maxLovelaceSupply →
    Rewards.activeStake snapshots.go ≤
      state.rest.other.maxLovelaceSupply.toNat - state.rest.accounting.reserves.toNat
  performance : ∀ previous ∈ state.previousProtocolParams,
    Rewards.mostlyFederated (previous.d.getD ⟨0, 1⟩) = true ∨
      Rewards.RoundedDown state.rest.other.blocksMadePrev snapshots.go

theorem derivePoolPerformance_of_isEmpty {blocks : KeyedMap PoolKeyHash UInt64}
    (hnone : blocks.entries.isEmpty) (go : StakeSnapshot) (d : UnitInterval) :
    Rewards.derivePoolPerformance blocks go d = ∅ := by
  unfold Rewards.derivePoolPerformance
  rw [List.isEmpty_iff.mp hnone]
  dsimp only
  split
  · rfl
  · split <;> rfl

/-- The rewards take what they give out from reserves and fees. -/
theorem boundaryRewards_balanced {state : BoundaryState} {snapshots : StakeSnapshots}
    {dist : EpochRewardDistribution} (hinputs : RewardInputs state snapshots)
    (hfits : state.rest.accounting.reserves.toNat + snapshots.previousFeePot.toNat < 2 ^ 64)
    (hdist : boundaryRewards ∅ state snapshots = .ok dist) :
    dist.credited + dist.treasuryCut.toNat + dist.unclaimed.toNat =
        dist.deltaReserves.toNat + snapshots.previousFeePot.toNat ∧
      dist.deltaReserves.toNat ≤ state.rest.accounting.reserves.toNat := by
  unfold boundaryRewards at hdist
  split at hdist
  · rename_i params previous hparams hprevious
    obtain ⟨eta, -, hreturn⟩ := bind_eq_ok.mp hdist
    obtain ⟨hrho, htau⟩ := hinputs.rates previous hprevious
    have hgo : Rewards.RewardableSnapshot
        (boundaryRewardParams state snapshots.previousFeePot params previous eta) snapshots.go :=
      ⟨hinputs.owners_nodup, hinputs.active_lt, hinputs.active_le_circulation⟩
    -- without a performance map it is derived from the blocks, or there are none
    have heffective : (if (∅ : KeyedMap PoolKeyHash UnitInterval).entries.isEmpty &&
          !state.rest.other.blocksMadePrev.entries.isEmpty then
        Rewards.derivePoolPerformance state.rest.other.blocksMadePrev snapshots.go
          (previous.d.getD ⟨0, 1⟩) else ∅) =
        Rewards.derivePoolPerformance state.rest.other.blocksMadePrev snapshots.go
          (previous.d.getD ⟨0, 1⟩) := by
      split
      · rfl
      · rename_i hidle
        exact (derivePoolPerformance_of_isEmpty (by simpa using hidle) _ _).symm
    have hbalanced : Rewards.Balanced
        (boundaryRewardParams state snapshots.previousFeePot params previous eta) dist := by
      rw [heffective] at hreturn
      cases hreturn
      refine (Rewards.balanced_iff _ _ _ hrho htau).mpr ⟨?_, .inl ?_⟩
      · exact (Nat.add_le_add_right (Rewards.deltaReserves_le hrho) _).trans_lt hfits
      · exact Rewards.owed_poolRewards_le hgo (hinputs.performance previous hprevious)
    obtain ⟨hsources, hreserves, hcredits, -, hleftover⟩ := hbalanced
    refine ⟨?_, hreserves⟩
    rw [hcredits] at hleftover
    change _ = _ + snapshots.previousFeePot.toNat at hsources
    omega
  · cases hdist

/-- What a boundary needs in its pots. -/
structure BoundaryCovered (state : BoundaryState) (snapshots : StakeSnapshots)
    (expansion : UInt64) : Prop where
  fits : potsOf state.rest.accounting + totalBalance state.rest.rewardAccounts +
    state.rest.depositPot.lovelace + state.rest.utxosDonation.toNat + snapshots.feePot.toNat +
    snapshots.previousFeePot.toNat < 2 ^ 64
  pools : total (·.deposit.toNat) state.rest.poolState.entries ≤
    state.rest.depositPot.poolDeposits.toNat
  proposals : pendingDeposits state.rest.governanceActions ≤
    state.rest.depositPot.proposalDeposits.toNat
  rewards : state.rest.instantaneousRewards.Covered state.rest.accounting expansion.toNat
  withdrawals : ∀ id action, state.rest.governanceActions.lookup id = some action →
    withdrawalSum action.proposal.govAction < 2 ^ 64

section

variable (newEpoch : EpochNo) {state : BoundaryState} {snapshots : StakeSnapshots}
  {dist : EpochRewardDistribution}

/-- Up to the accounting: rewards, instantaneous rewards and pool deposits keep the total, and
leave proposals and donations alone. -/
theorem accounted_balance (hcovered : BoundaryCovered state snapshots dist.deltaReserves)
    (hbalanced : dist.credited + dist.treasuryCut.toNat + dist.unclaimed.toNat =
      dist.deltaReserves.toNat + snapshots.previousFeePot.toNat)
    (hreserves : dist.deltaReserves.toNat ≤ state.rest.accounting.reserves.toNat) :
    let accounted := (boundaryRun newEpoch state snapshots dist).accounted.rest
    totalBalance accounted.rewardAccounts + potsOf accounted.accounting +
        accounted.depositPot.lovelace =
      totalBalance state.rest.rewardAccounts + potsOf state.rest.accounting +
        state.rest.depositPot.lovelace + snapshots.previousFeePot.toNat ∧
      accounted.utxosDonation = state.rest.utxosDonation ∧
      accounted.governanceActions = state.rest.governanceActions ∧
      accounted.depositPot.proposalDeposits = state.rest.depositPot.proposalDeposits := by
  obtain ⟨hfits, hpools, -, hmir, -⟩ := hcovered
  unfold potsOf at hfits
  have hrewards := @held_distributeRewards state.rest.rewardAccounts dist (by omega)
  unfold Payout.held at hrewards
  dsimp only [boundaryRun, payRewards, accountBoundary, updateParameters]
  generalize distributeRewards state.rest.rewardAccounts dist = payout at hrewards ⊢
  obtain ⟨hpaid, hleft⟩ := @applyMir_balance (enterEpoch newEpoch payout.accounts state.rest)
    dist.deltaReserves.toNat hmir hreserves (by dsimp only [enterEpoch]; omega)
    (by dsimp only [enterEpoch]; omega)
  obtain ⟨hmirPot, hmirDonation, hmirActions, hmirPools⟩ :=
    applyMir_frame (enterEpoch newEpoch payout.accounts state.rest)
  dsimp only [enterEpoch] at hpaid hleft hmirPot hmirDonation hmirActions hmirPools ⊢
  generalize applyMirAtEpochBoundary _ = mir at *
  have hpoolsLeft : total (·.deposit.toNat) (adoptStaged mir.1).poolState.entries ≤
      (adoptStaged mir.1).depositPot.poolDeposits.toNat := by
    rw [adoptStaged_pools, hmirPools]
    exact hpools.trans_eq (congrArg (fun pot => pot.poolDeposits.toNat) hmirPot.symm)
  have hretired := @retirePools_balance newEpoch (adoptStaged mir.1) hpoolsLeft
    (by dsimp only [adoptStaged]; rw [hmirPot]; omega)
  obtain ⟨hpots, hdonation, hactions⟩ := retirePools_frame newEpoch (adoptStaged mir.1)
  have hproposals : (retirePoolsWithRefunds newEpoch
      (adoptStaged mir.1)).1.depositPot.proposalDeposits = mir.1.depositPot.proposalDeposits := by
    unfold retirePoolsWithRefunds
    dsimp only
    split
    · rfl
    · rw [returnPools_eq]
      rfl
  generalize retirePoolsWithRefunds newEpoch (adoptStaged mir.1) = retired at *
  dsimp only [adoptStaged] at hretired hpots hdonation hactions
  refine ⟨?_, hdonation.trans hmirDonation, hactions.trans hmirActions,
    hproposals.trans (congrArg _ hmirPot)⟩
  rw [hmirPot] at hretired
  rw [← hpots] at hpaid hleft
  have hsettled := @potsOf_settleAccounting dist payout.unclaimed retired.2.2.unclaimed
    retired.1.accounting hleft (by unfold potsOf; omega)
  unfold potsOf at *
  omega

end

/-- A million lovelace of reserves, most of them due as an instantaneous reward. -/
def drainedState (reward : Int64) : BoundaryState :=
  { BoundaryState.new .shelley with
    protocolParams := some {}
    rest := { (BoundaryState.new .shelley).rest with
      accounting := ⟨0, 1000000⟩
      rewardAccounts := single luckyAccount ⟨0, none⟩
      instantaneousRewards := ⟨single luckyAccount.credential reward, ∅, 0, 0⟩ } }

/-- Two pools with blocks, of which one retires; an instantaneous reward and a transfer; a
withdrawal that is enacted, and a proposal that expires. -/
def busyState : BoundaryState :=
  { BoundaryState.new .conway with
    protocolParams := some
      { d := some ⟨1, 1⟩, drepVotingThresholds := some { treasuryWithdrawal := ⟨0, 1⟩ } }
    rest := { (BoundaryState.new .conway).rest with
      accounting := ⟨500, 1000000⟩
      rewardAccounts := single luckyAccount ⟨40, none⟩
      instantaneousRewards := ⟨single luckyAccount.credential 7000, ∅, -100, 100⟩
      poolState := ⟨single 1 ⟨Rewards.soloPool 1, some 1, 500⟩, ∅⟩
      depositPot := ⟨0, 500, 0, 300⟩
      utxosDonation := 50
      governanceActions := (single ⟨1, 0⟩ (.newWithLifetime
          ⟨200, [], .treasuryWithdrawals (single luckyAccount 20) none, ⟨[], 0⟩⟩ 0 none)).insert
        ⟨2, 0⟩ (.newWithLifetime ⟨100, [], .infoAction, ⟨[], 0⟩⟩ 0 (some 0))
      other := { (BoundaryState.new .conway).rest.other with
        blocksMadePrev := Rewards.threeBlocks } } }

def busySnapshots : StakeSnapshots :=
  { StakeSnapshots.new with
    go := Rewards.twoPools 10 20
    feePot := 70
    previousFeePot := 1000 }

theorem busy_rewardInputs : RewardInputs busyState busySnapshots where
  rates := by
    rintro previous ⟨⟩
    decide
  owners_nodup := (@Rewards.twoPools_rewardable 10 20 0 (by decide)).owners_nodup
  active_lt := by decide
  active_le_circulation := fun hsupply => absurd hsupply (UInt64.lt_irrefl 0)
  performance := by
    rintro previous ⟨⟩
    exact .inl (by decide)

theorem busy_covered : BoundaryCovered busyState busySnapshots 3000 where
  fits := by decide
  pools := by decide
  proposals := by decide
  rewards := ⟨by decide, by decide, by decide, by decide⟩
  withdrawals := by
    intro id action hlookup
    have hall : ∀ entry ∈ busyState.rest.governanceActions.entries,
        withdrawalSum entry.2.proposal.govAction < 2 ^ 64 := by decide
    exact hall ⟨id, action⟩ (AList.mem_lookup_iff.mp hlookup)

end Yggdrasil.Ledger
