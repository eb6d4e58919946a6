import Yggdrasil.Library.FallibleLoop
import Yggdrasil.Ledger.Rewards.RewardBalance

/-!
# The shares of a pool's reward

What `compute_pool_reward` gives to the operator and to the members of a pool, against the exact
rational shares, and to whom.  A product of remainders that needs more than 128 bits is dropped from
a share; the operator of a pool whose reward does not exceed its cost gets it whether or not the
reward account is registered.
-/

namespace Yggdrasil.Ledger.Rewards

open Library KeyedMap

/-! ## Quotients -/

/-- A quotient is exact unless a term is dropped. -/
theorem floorMulDiv_eq_div_iff {a b c : Nat} (hc : 0 < c) (hword : c ≤ 2 ^ 128)
    (hfits : a * b / c < 2 ^ 128) :
    floorMulDiv a b c = a * b / c ↔ a % c * (b % c) < 2 ^ 128 := by
  have hdropped : a % c * (b % c) / c ≤ a * b / c :=
    Nat.div_le_div_right (Nat.mul_le_mul (Nat.mod_le _ _) (Nat.mod_le _ _))
  have hnonneg := Nat.zero_le (a % c * (b % c) / c)
  rw [floorMulDiv_eq a b hc, droppedTerm]
  constructor
  · intro hexact
    by_contra hlarge
    have hone : 1 ≤ a % c * (b % c) / c := (Nat.one_le_div_iff hc).mpr (by omega)
    rw [if_neg hlarge] at hexact
    omega
  · intro hsmall
    rw [if_pos hsmall]
    omega

/-- The quotient as a 64-bit word is the exact one unless a term is dropped or it has more bits. -/
theorem toNat_floorMulDiv_eq_iff {a b c : Nat} (hc : 0 < c) (hword : c ≤ 2 ^ 128) :
    (UInt64.ofNat (floorMulDiv a b c)).toNat = a * b / c ↔
      a % c * (b % c) < 2 ^ 128 ∧ a * b / c < 2 ^ 64 := by
  have hle := floorMulDiv_le_div a b hc
  rw [UInt64.toNat_ofNat']
  constructor
  · intro hexact
    have hsame : floorMulDiv a b c = a * b / c := by
      omega
    exact ⟨(floorMulDiv_eq_div_iff hc hword (by omega)).mp hsame, by omega⟩
  · rintro ⟨hsmall, hfits⟩
    rw [(floorMulDiv_eq_div_iff hc hword (by omega)).mpr hsmall]
    exact Nat.mod_eq_of_lt hfits

/-! ## Exact shares -/

section

variable (apparent cost : Nat) (margin pool : ℚ)

def exactLeader (own : ℚ) : Nat :=
  min apparent (cost + ⌊((apparent - cost : Nat) : ℚ) * (margin + (1 - margin) * (own / pool))⌋₊)

def exactMember (stake : ℚ) : Nat :=
  ⌊((apparent - cost : Nat) : ℚ) * (1 - margin) * (stake / pool)⌋₊

end

namespace ProfitSplit

/-- A split of 64-bit numbers, with a margin of at most one. -/
structure Proper (split : ProfitSplit) : Prop where
  margin_le : split.marginNum ≤ split.marginDen
  marginDen_pos : 0 < split.marginDen
  marginDen_lt : split.marginDen < 2 ^ 64
  pool_pos : 0 < split.pool
  pool_lt : split.pool < 2 ^ 64

variable {split : ProfitSplit}

/-- The operator's share of the profit, over `den`. -/
def leaderNum (split : ProfitSplit) (own : UInt64) : Nat :=
  split.marginNum * split.pool + split.oneMinusMargin * own.toNat

/-- A member's share of the profit, over `den`. -/
def memberNum (split : ProfitSplit) (stake : UInt64) : Nat := split.oneMinusMargin * stake.toNat

/-- A share is not cut: the product of the remainders fits 128 bits, and the quotient 64. -/
def Fits (split : ProfitSplit) (num : Nat) : Prop :=
  split.profit % split.den * (num % split.den) < 2 ^ 128 ∧ split.profit * num / split.den < 2 ^ 64

variable (hsplit : split.Proper)
include hsplit

theorem Proper.den_eq : split.den = split.marginDen * split.pool := by
  have hlimit := PoolFractions.mul_lt hsplit.marginDen_lt hsplit.pool_lt
  exact min_eq_left (by omega)

theorem Proper.den_pos : 0 < split.den :=
  hsplit.den_eq ▸ Nat.mul_pos hsplit.marginDen_pos hsplit.pool_pos

omit hsplit

theorem den_le (split : ProfitSplit) : split.den ≤ 2 ^ 128 :=
  le_trans (min_le_right _ _) (by omega)

include hsplit

theorem Proper.leaderExtra_eq (own : UInt64) :
    split.leaderExtra own = .ofNat (floorMulDiv split.profit (split.leaderNum own) split.den) := by
  have hown := own.toNat_lt
  have hmargin := hsplit.margin_le
  have hsum : split.leaderNum own ≤ split.marginDen * (2 ^ 64 - 1) := by
    have hpool := hsplit.pool_lt
    calc split.leaderNum own
        ≤ split.marginNum * (2 ^ 64 - 1) + split.oneMinusMargin * (2 ^ 64 - 1) :=
          Nat.add_le_add (Nat.mul_le_mul_left _ (by omega)) (Nat.mul_le_mul_left _ (by omega))
      _ = split.marginDen * (2 ^ 64 - 1) := by
          rw [← Nat.add_mul, oneMinusMargin, Nat.add_sub_cancel' hmargin]
  have hden := hsplit.marginDen_lt
  unfold leaderExtra saturatingAdd128 saturatingMul128
  unfold leaderNum at hsum ⊢
  rw [min_eq_left (by omega), min_eq_left (by omega), min_eq_left (by omega)]

theorem Proper.memberReward_eq (stake : UInt64) :
    split.memberReward stake =
      .ofNat (floorMulDiv split.profit (split.memberNum stake) split.den) := by
  have hlimit : split.oneMinusMargin * stake.toNat < 2 ^ 128 := by
    have hden := hsplit.marginDen_lt
    have hsub := Nat.sub_le split.marginDen split.marginNum
    exact PoolFractions.mul_lt (lt_of_le_of_lt hsub hden) stake.toNat_lt
  unfold memberReward saturatingMul128
  rw [if_pos hsplit.den_pos, min_eq_left (by omega)]
  rfl

theorem Proper.floor_leader (own : UInt64) :
    ⌊(split.profit : ℚ) * ((split.marginNum : ℚ) / split.marginDen +
      (1 - (split.marginNum : ℚ) / split.marginDen) * ((own.toNat : ℚ) / split.pool))⌋₊ =
      split.profit * split.leaderNum own / split.den := by
  have hmarginDen : (split.marginDen : ℚ) ≠ 0 := Nat.cast_ne_zero.mpr hsplit.marginDen_pos.ne'
  have hpool : (split.pool : ℚ) ≠ 0 := Nat.cast_ne_zero.mpr hsplit.pool_pos.ne'
  rw [← Nat.floor_div_eq_div (K := ℚ), hsplit.den_eq, leaderNum, oneMinusMargin]
  congr 1
  push_cast [Nat.cast_sub hsplit.margin_le]
  field_simp

theorem Proper.floor_member (stake : UInt64) :
    ⌊(split.profit : ℚ) * (1 - (split.marginNum : ℚ) / split.marginDen) *
      ((stake.toNat : ℚ) / split.pool)⌋₊ =
      split.profit * split.memberNum stake / split.den := by
  have hmarginDen : (split.marginDen : ℚ) ≠ 0 := Nat.cast_ne_zero.mpr hsplit.marginDen_pos.ne'
  rw [← Nat.floor_div_eq_div (K := ℚ), hsplit.den_eq, memberNum, oneMinusMargin]
  congr 1
  push_cast [Nat.cast_sub hsplit.margin_le]
  field_simp

end ProfitSplit

/-! ## The rewards of a pool -/

section

variable (params : RewardParams) (snapshot : StakeSnapshot) (pool : PoolKeyHash)
  (poolParams : PoolParams) (poolStake apparent : UInt64)

/-- The credentials that share in a pool's profit as members. -/
def IsMember (credential : StakeCredential) : Prop :=
  snapshot.delegations.lookup credential = some pool ∧
    credential ∉ poolParams.poolOwners.map StakeCredential.addrKeyHash ∧
    params.admits credential = true

/-- How a pool whose reward exceeds its cost splits the profit. -/
def profitSplit : ProfitSplit where
  profit := (apparent - poolParams.cost).toNat
  marginNum := poolParams.margin.numerator.toNat
  marginDen := (max poolParams.margin.denominator 1).toNat
  pool := (max poolStake 1).toNat

/-- The margin as a number. -/
def PoolParams.marginRatio : ℚ :=
  poolParams.margin.numerator.toNat / (max poolParams.margin.denominator 1).toNat

/-- The operator gets the exact share, and so does every member. -/
structure ExactShares (breakdown : PoolRewardBreakdown) : Prop where
  leader : breakdown.leaderReward.toNat =
    exactLeader breakdown.apparentPerformanceReward.toNat poolParams.cost.toNat
      (PoolParams.marginRatio poolParams) poolStake.toNat
      (ownerDelegatedStake snapshot pool poolParams).toNat
  members : ∀ credential, IsMember params snapshot pool poolParams credential →
    amountAt UInt64.toNat breakdown.memberRewards credential =
      exactMember breakdown.apparentPerformanceReward.toNat poolParams.cost.toNat
        (PoolParams.marginRatio poolParams) poolStake.toNat (snapshot.stake.get credential).toNat

/-- No share is cut.  A cut of the operator's share does not show if what is left is the whole
profit, or if the account may not be rewarded and nothing is due. -/
structure SharesFit (split : ProfitSplit) : Prop where
  leader :
    let own := ownerDelegatedStake snapshot pool poolParams
    if params.admits poolParams.rewardAccount.credential then
      split.Fits (split.leaderNum own) ∨ split.profit ≤ (split.leaderExtra own).toNat
    else poolParams.cost = 0 ∧ split.profit * split.leaderNum own / split.den = 0
  members : ∀ credential, IsMember params snapshot pool poolParams credential →
    split.Fits (split.memberNum (snapshot.stake.get credential))

variable {params snapshot pool poolParams poolStake apparent}

theorem amountAt_memberRewards {split : ProfitSplit} (hsplit : split.Proper)
    {credential : StakeCredential} (hmember : IsMember params snapshot pool poolParams credential) :
    amountAt UInt64.toNat (memberRewards params snapshot pool poolParams split)
        credential =
      (UInt64.ofNat (floorMulDiv split.profit (split.memberNum (snapshot.stake.get credential))
        split.den)).toNat := by
  obtain ⟨hdelegated, howner, hadmitted⟩ := hmember
  rw [← hsplit.memberReward_eq]
  unfold amountAt
  rw [lookup_memberRewards, hdelegated]
  by_cases hstake : snapshot.stake.get credential = 0
  · have hnothing : split.memberReward 0 = 0 := by
      rw [hsplit.memberReward_eq, ProfitSplit.memberNum, floorMulDiv_eq _ _
        hsplit.den_pos]
      simp
    simp [memberShare, hstake, hnothing]
  · by_cases hreward : 0 < split.memberReward (snapshot.stake.get credential)
    · simp [memberShare, howner, hadmitted, hstake, hreward]
    · have hzero : split.memberReward (snapshot.stake.get credential) = 0 := by
        rw [UInt64.lt_iff_toNat_lt, UInt64.toNat_zero] at hreward
        exact UInt64.toNat_inj.mp (Nat.eq_zero_of_not_pos hreward)
      simp [memberShare, hzero]

theorem profitSplit_proper (hmargin : poolParams.margin.numerator.toNat ≤
    (max poolParams.margin.denominator 1).toNat) :
    (profitSplit poolParams poolStake apparent).Proper :=
  ⟨hmargin, toNat_max_one_pos _, UInt64.toNat_lt _, toNat_max_one_pos _, UInt64.toNat_lt _⟩

theorem leaderReward_exact_iff {split : ProfitSplit} (hsplit : split.Proper) (own : UInt64)
    {cost apparent : UInt64} (hcost : cost < apparent)
    (hprofit : split.profit = apparent.toNat - cost.toNat) (admitted : Bool) :
    (if admitted then min (saturatingAdd cost (split.leaderExtra own)) apparent else 0).toNat =
        min apparent.toNat (cost.toNat + split.profit * split.leaderNum own / split.den) ↔
      if admitted then
        split.Fits (split.leaderNum own) ∨ split.profit ≤ (split.leaderExtra own).toNat
      else cost = 0 ∧ split.profit * split.leaderNum own / split.den = 0 := by
  have hlimit := apparent.toNat_lt
  have hexact := toNat_floorMulDiv_eq_iff (a := split.profit) (b := split.leaderNum own)
    hsplit.den_pos split.den_le
  have hle := floorMulDiv_le_div split.profit (split.leaderNum own) hsplit.den_pos
  rw [← hsplit.leaderExtra_eq] at hexact
  have hextra : (split.leaderExtra own).toNat ≤ split.profit * split.leaderNum own / split.den := by
    rw [hsplit.leaderExtra_eq]
    exact le_trans (toNat_ofNat_le _) hle
  rw [UInt64.lt_iff_toNat_lt] at hcost
  unfold ProfitSplit.Fits
  rw [← hexact]
  generalize split.profit * split.leaderNum own / split.den = due at *
  cases admitted with
  | true =>
    simp only [if_true, toNat_min, toNat_saturatingAdd]
    omega
  | false =>
    simp only [Bool.false_eq_true, if_false, UInt64.toNat_zero, ← UInt64.toNat_inj]
    omega

theorem splitPoolReward_exact_iff (hmargin : poolParams.margin.numerator.toNat ≤
      (max poolParams.margin.denominator 1).toNat)
    (hstake : poolStake = 0 → apparent ≤ poolParams.cost) :
    ExactShares params snapshot pool poolParams poolStake
        (splitPoolReward params snapshot pool poolParams poolStake apparent) ↔
      (poolParams.cost < apparent →
        SharesFit params snapshot pool poolParams (profitSplit poolParams poolStake apparent)) := by
  by_cases hcost : apparent ≤ poolParams.cost
  · have hnone := Nat.sub_eq_zero_of_le (UInt64.le_iff_toNat_le.mp hcost)
    rw [splitPoolReward, if_pos hcost]
    refine ⟨fun _ hmore => absurd hcost (UInt64.not_le.mpr hmore), fun _ => ⟨?_, fun _ _ => ?_⟩⟩
    · rw [UInt64.le_iff_toNat_le] at hcost
      simp only [exactLeader]
      simp [hcost]
    · simp only [exactMember, hnone]
      simp [amountAt]
  · have hsplit : (profitSplit poolParams poolStake apparent).Proper := profitSplit_proper hmargin
    have hmore : poolParams.cost < apparent := UInt64.not_le.mp hcost
    have hprofit : (profitSplit poolParams poolStake apparent).profit =
        apparent.toNat - poolParams.cost.toNat := by
      rw [profitSplit, UInt64.toNat_sub_of_le _ _ (UInt64.le_of_lt hmore)]
    have hpool : (profitSplit poolParams poolStake apparent).pool = poolStake.toNat := by
      have hpositive : poolStake.toNat ≠ 0 := fun h => hcost (hstake (UInt64.toNat_inj.mp h))
      exact (toNat_max_one poolStake).trans (by omega)
    have hleader := leaderReward_exact_iff hsplit (ownerDelegatedStake snapshot pool poolParams)
      hmore hprofit (params.admits poolParams.rewardAccount.credential)
    have hmember := fun credential (h : IsMember params snapshot pool poolParams credential) =>
      (Eq.congr_left (amountAt_memberRewards hsplit h)).trans
        (toNat_floorMulDiv_eq_iff hsplit.den_pos (ProfitSplit.den_le _))
    have hleaderDue := congrArg (fun due => min apparent.toNat (poolParams.cost.toNat + due))
      (hsplit.floor_leader (ownerDelegatedStake snapshot pool poolParams))
    have hmemberDue := fun credential => hsplit.floor_member (snapshot.stake.get credential)
    simp only [hpool] at hleaderDue hmemberDue
    rw [splitPoolReward, if_neg hcost]
    constructor
    · rintro ⟨hleaderExact, hmembersExact⟩ _
      refine ⟨hleader.mp ?_, fun credential h => (hmember credential h).mp ?_⟩
      · rw [exactLeader, ← hprofit] at hleaderExact
        exact hleaderExact.trans hleaderDue
      · have hexact := hmembersExact credential h
        rw [exactMember, ← hprofit] at hexact
        exact hexact.trans (hmemberDue credential)
    · intro hfit
      obtain ⟨hleaderFits, hmembersFit⟩ := hfit hmore
      refine ⟨?_, fun credential h => ?_⟩
      · rw [exactLeader, ← hprofit]
        exact (hleader.mpr hleaderFits).trans hleaderDue.symm
      · rw [exactMember, ← hprofit]
        exact ((hmember credential h).mpr (hmembersFit credential h)).trans
          (hmemberDue credential).symm

theorem mulRational_zero (ratio : UnitInterval) : mulRational 0 ratio = 0 := by
  have hmul := mulRational_mul_le 0 ratio
  rw [UInt64.toNat_zero, Nat.zero_mul, Nat.le_zero, Nat.mul_eq_zero] at hmul
  rcases hmul with hzero | hden
  · exact UInt64.toNat_inj.mp hzero
  · rw [mulRational, if_pos (UInt64.toNat_inj.mp hden)]

/-- **The shares are exact if and only if no product of remainders needs more than 128 bits.** -/
theorem computePoolReward_exact_iff (rewardsPot : UInt64) (distribution : PoolStakeDistribution)
    (performance : UnitInterval) (hlookup : snapshot.poolParams.lookup pool = some poolParams)
    (hpledge : poolParams.pledge ≤ ownerDelegatedStake snapshot pool poolParams)
    (hmargin : poolParams.margin.numerator.toNat ≤ (max poolParams.margin.denominator 1).toNat) :
    (∀ a b c : Nat, 0 < c → c < 2 ^ 128 → a * b / c < 2 ^ 128 →
      (floorMulDiv a b c = a * b / c ↔ a % c * (b % c) < 2 ^ 128)) ∧
    let poolStake := distribution.poolStake pool
    let breakdown := computePoolReward rewardsPot params pool snapshot distribution performance
    (ExactShares params snapshot pool poolParams poolStake breakdown ↔
      (poolParams.cost < breakdown.apparentPerformanceReward →
        SharesFit params snapshot pool poolParams
          (profitSplit poolParams poolStake breakdown.apparentPerformanceReward))) := by
  refine ⟨fun _ _ _ hpositive hword => floorMulDiv_eq_div_iff hpositive hword.le, ?_⟩
  have happarent : ∀ apparent, (splitPoolReward params snapshot pool poolParams
      (distribution.poolStake pool) apparent).apparentPerformanceReward = apparent := by
    intro apparent
    unfold splitPoolReward
    split <;> rfl
  unfold computePoolReward
  simp only [hlookup, UInt64.not_lt.mpr hpledge, if_false, happarent]
  refine splitPoolReward_exact_iff hmargin fun hzero => ?_
  rw [maxPoolReward, if_pos (.inr (.inr (.inr hzero))), mulRationalCapped, mulRational_zero,
    UInt64.le_iff_toNat_le, toNat_min]
  exact Nat.le_trans (Nat.min_le_left _ _) (Nat.zero_le _)

end

/-- Stakes of ten and twenty, rewards of more than the cost. -/
theorem modestPool_exact :
    ExactShares (feesOnly 1000000000) (twoPools 10 20) 2 (soloPool 2) 20
      (computePoolReward 1000000000 (feesOnly 1000000000) 2 (twoPools 10 20)
        (twoPools 10 20).poolStakeDistribution ⟨1, 1⟩) := by
  refine (computePoolReward_exact_iff 1000000000 (twoPools 10 20).poolStakeDistribution ⟨1, 1⟩
    (by decide) (by decide) (by decide)).2.mpr fun _ =>
      ⟨(if_pos (by decide)).mpr (.inl ⟨by decide +kernel, by decide +kernel⟩), fun _ _ => ?_⟩
  -- the operator keeps everything, so there is nothing to cut from a member's share
  rw [ProfitSplit.Fits, ProfitSplit.memberNum, show ProfitSplit.oneMinusMargin _ = 0 by rfl]
  simp

/-- A pool that keeps half of its profit, in 53-bit fractions, and one member. -/
def halfPool (stake : UInt64) : StakeSnapshot where
  stake := single (.addrKeyHash 7) stake
  delegations := single (.addrKeyHash 7) 1
  poolParams := single 1 { soloPool 1 with cost := 0, margin := ⟨2 ^ 52, 2 ^ 53⟩ }

/-- **A member with all the stake of a pool, a billion ada, gets nothing of the half that is due, and
the operator nothing of the other half.** -/
theorem halfPool_pays_nothing :
    let params := feesOnly (2 ^ 40)
    let breakdown := computePoolReward (2 ^ 40) params 1 (halfPool (2 ^ 50))
      (halfPool (2 ^ 50)).poolStakeDistribution ⟨1, 1⟩
    breakdown.apparentPerformanceReward = 2 ^ 40 ∧ breakdown.leaderReward = 0 ∧
      breakdown.memberRewards.lookup (.addrKeyHash 7) = none ∧
      2 ^ 40 * (2 ^ 52 * 2 ^ 50) / (2 ^ 53 * 2 ^ 50) = 2 ^ 39 ∧
      floorMulDiv (2 ^ 40) (2 ^ 52 * 2 ^ 50) (2 ^ 53 * 2 ^ 50) = 0 := by
  decide +kernel

/-! ## Registered credentials -/

/-- The keys with a positive amount. -/
def Gets {Key : Type} [DecidableEq Key] (map : KeyedMap Key UInt64) (key : Key) : Prop :=
  0 < amountAt UInt64.toNat map key

theorem gets_credit {Key : Type} [DecidableEq Key] (map : KeyedMap Key UInt64) (key other : Key)
    (amount : UInt64) :
    Gets (upsert key 0 (saturatingAdd · amount) map) other ↔
      Gets map other ∨ key = other ∧ 0 < amount := by
  unfold Gets amountAt upsert
  rw [UInt64.lt_iff_toNat_lt, UInt64.toNat_zero]
  by_cases hsame : other = key
  · subst hsame
    rw [AList.lookup_insert]
    cases map.lookup other with
    | none => simp [toNat_saturatingAdd]
    | some held =>
      simp only [Option.map_some, Option.getD_some, toNat_saturatingAdd, true_and]
      omega
  · rw [AList.lookup_insert_ne hsame]
    simp [Ne.symm hsame]

section

variable (params : RewardParams) (go : StakeSnapshot)
  (performance : KeyedMap PoolKeyHash UnitInterval)

theorem leader_addPool (rewards : RewardsSoFar) (pool : RewardAccount × PoolRewardBreakdown)
    (account : RewardAccount) :
    Gets (rewards.addPool pool).leaderDeltas account ↔
      Gets rewards.leaderDeltas account ∨ pool.1 = account ∧ 0 < pool.2.leaderReward := by
  have hmembers : ∀ start members, (List.foldl RewardsSoFar.addMember start members).leaderDeltas =
      start.leaderDeltas := by
    refine fun start members => foldl_keeps _ (fun _ _ => ?_) members start
    rfl
  rw [RewardsSoFar.addPool, hmembers]
  split
  next => rw [RewardsSoFar.addLeader, gets_credit]
  next hnothing => simp [hnothing]

theorem member_addPool (rewards : RewardsSoFar) (pool : RewardAccount × PoolRewardBreakdown)
    (credential : StakeCredential) :
    Gets (rewards.addPool pool).rewardDeltas credential ↔
      Gets rewards.rewardDeltas credential ∨
        ∃ reward ∈ pairs pool.2.memberRewards, reward.1 = credential ∧ 0 < reward.2 := by
  refine (foldl_iff_exists _
    (fun rewards => Gets _ _)
    (fun reward => reward.1 = _ ∧ 0 < reward.2)
    (fun rewards reward => gets_credit _ reward.1 _ reward.2)
    _ _).trans ?_
  split <;> rfl

theorem leader_computeEpochRewards (account : RewardAccount) :
    Gets (computeEpochRewards params go performance).leaderDeltas account ↔
      ∃ pool ∈ poolRewards params go performance, pool.1 = account ∧ 0 < pool.2.leaderReward :=
  (foldl_iff_exists RewardsSoFar.addPool (fun rewards => Gets rewards.leaderDeltas account)
    (fun pool => pool.1 = account ∧ 0 < pool.2.leaderReward)
    (fun rewards pool => leader_addPool rewards pool account) _ ⟨∅, ∅, 0⟩).trans
      (or_iff_right (lt_irrefl 0))

theorem member_computeEpochRewards (credential : StakeCredential) :
    Gets (computeEpochRewards params go performance).rewardDeltas credential ↔
      ∃ pool ∈ poolRewards params go performance,
        ∃ reward ∈ pairs pool.2.memberRewards, reward.1 = credential ∧ 0 < reward.2 :=
  (foldl_iff_exists RewardsSoFar.addPool
    (fun rewards => Gets rewards.rewardDeltas credential) _
    (fun rewards pool => member_addPool rewards pool credential) _ ⟨∅, ∅, 0⟩).trans
      (or_iff_right (lt_irrefl 0))

/-- The credentials that get something are registered. -/
structure PaysRegistered (result : EpochRewardDistribution) : Prop where
  leaders : ∀ account, Gets result.leaderDeltas account →
    account.credential ∈ params.registeredCredentials
  members : ∀ credential, Gets result.rewardDeltas credential →
    credential ∈ params.registeredCredentials

/-- The reward of a pool of the snapshot. -/
def poolReward (pool : PoolKeyHash) : PoolRewardBreakdown :=
  computePoolReward (computeEpochRewardPot params).rewardsPot params pool go
    go.poolStakeDistribution ((performance.lookup pool).getD ⟨0, 1⟩)

variable {params go performance}

theorem admits_iff (hprefilter : params.prefilterUnregistered = true)
    (credential : StakeCredential) :
    params.admits credential = true ↔ credential ∈ params.registeredCredentials := by
  simp [RewardParams.admits, hprefilter]

variable {pool : PoolKeyHash} {poolParams : PoolParams}

theorem poolReward_eq (params : RewardParams) (performance : KeyedMap PoolKeyHash UnitInterval)
    (hlookup : go.poolParams.lookup pool = some poolParams) :
    poolReward params go performance pool = .nothing ∨ ∃ poolStake apparent,
      poolReward params go performance pool =
        splitPoolReward params go pool poolParams poolStake apparent := by
  unfold poolReward computePoolReward
  rw [hlookup]
  dsimp only
  split
  · exact .inl rfl
  · exact .inr ⟨_, _, rfl⟩

variable (hlookup : go.poolParams.lookup pool = some poolParams)
include hlookup

theorem admits_of_member {reward : StakeCredential × UInt64}
    (hreward : reward ∈ pairs (poolReward params go performance pool).memberRewards) :
    params.admits reward.1 = true := by
  obtain hnothing | ⟨poolStake, apparent, hsplit⟩ := poolReward_eq params performance hlookup
  · rw [hnothing] at hreward
    cases hreward
  · rw [hsplit, splitPoolReward] at hreward
    split at hreward
    · cases hreward
    · obtain ⟨entry, hentry, rfl⟩ := List.mem_map.mp hreward
      exact (memberRewards_holds (lookup_of_mem_entries hentry)).2.2.1

/-- An operator that gets something may be rewarded, or the reward does not exceed the cost. -/
theorem leader_poolReward (hleader : 0 < (poolReward params go performance pool).leaderReward) :
    params.admits poolParams.rewardAccount.credential = true ∨
      0 < (poolReward params go performance pool).apparentPerformanceReward ∧
      (poolReward params go performance pool).apparentPerformanceReward ≤ poolParams.cost := by
  obtain hnothing | ⟨poolStake, apparent, hsplit⟩ := poolReward_eq params performance hlookup
  · rw [hnothing] at hleader
    exact absurd hleader (UInt64.lt_irrefl 0)
  · rw [hsplit, splitPoolReward] at hleader ⊢
    split at hleader
    next hcost => exact .inr ⟨by rwa [if_pos hcost], by rwa [if_pos hcost]⟩
    next hcost =>
      split at hleader
      next hadmitted => exact .inl hadmitted
      next => exact absurd hleader (UInt64.lt_irrefl 0)

theorem leaderReward_of_le
    (hcost : (poolReward params go performance pool).apparentPerformanceReward ≤ poolParams.cost) :
    (poolReward params go performance pool).leaderReward =
      (poolReward params go performance pool).apparentPerformanceReward := by
  obtain hnothing | ⟨poolStake, apparent, hsplit⟩ := poolReward_eq params performance hlookup
  · rw [hnothing]
    rfl
  · rw [hsplit, splitPoolReward] at hcost ⊢
    split at hcost
    next hle => rw [if_pos hle]
    next hle => exact absurd hcost hle

omit hlookup

theorem mem_poolRewards {entry : RewardAccount × PoolRewardBreakdown} :
    entry ∈ poolRewards params go performance ↔ ∃ pool poolParams,
      go.poolParams.lookup pool = some poolParams ∧
        entry = (poolParams.rewardAccount, poolReward params go performance pool) := by
  simp only [poolRewards, List.mem_map]
  constructor
  · rintro ⟨pool, hpool, rfl⟩
    exact ⟨pool.1, pool.2, lookup_of_mem_entries hpool, rfl⟩
  · rintro ⟨pool, poolParams, hlookup, rfl⟩
    exact ⟨⟨pool, poolParams⟩, AList.mem_lookup_iff.mp hlookup, rfl⟩

/-- **Before registration stopped mattering, rewards go only to registered credentials if and only
if every pool that gets something, but not more than its cost, has a registered account.** -/
theorem paysRegistered_iff (params : RewardParams) (go : StakeSnapshot)
    (performance : KeyedMap PoolKeyHash UnitInterval)
    (hprefilter : params.prefilterUnregistered = true) :
    PaysRegistered params (computeEpochRewards params go performance) ↔
      ∀ pool poolParams, go.poolParams.lookup pool = some poolParams →
        0 < (poolReward params go performance pool).apparentPerformanceReward →
        (poolReward params go performance pool).apparentPerformanceReward ≤ poolParams.cost →
        poolParams.rewardAccount.credential ∈ params.registeredCredentials := by
  constructor
  · intro hpays pool poolParams hlookup hpositive hcost
    refine hpays.leaders _ ((leader_computeEpochRewards params go _ _).mpr
      ⟨_, mem_poolRewards.mpr ⟨pool, poolParams, hlookup, rfl⟩, rfl, ?_⟩)
    rw [leaderReward_of_le hlookup hcost]
    exact hpositive
  · intro hcovered
    refine ⟨fun account hgets => ?_, fun credential hgets => ?_⟩
    · obtain ⟨entry, hentry, rfl, hleader⟩ := (leader_computeEpochRewards _ _ _ _).mp hgets
      obtain ⟨pool, poolParams, hlookup, rfl⟩ := mem_poolRewards.mp hentry
      rcases leader_poolReward hlookup hleader with hadmitted | ⟨hpositive, hcost⟩
      · exact (admits_iff hprefilter _).mp hadmitted
      · exact hcovered pool _ hlookup hpositive hcost
    · obtain ⟨entry, hentry, reward, hreward, rfl, -⟩ :=
        (member_computeEpochRewards _ _ _ _).mp hgets
      obtain ⟨pool, poolParams, hlookup, rfl⟩ := mem_poolRewards.mp hentry
      exact (admits_iff hprefilter _).mp (admits_of_member hlookup hreward)

end

/-- Registered operators. -/
theorem registeredPools_paysRegistered :
    let params := { feesOnly 30 with
      prefilterUnregistered := true
      registeredCredentials := [.addrKeyHash 1, .addrKeyHash 2] }
    PaysRegistered params (computeEpochRewards params (twoPools 10 20)
      (derivePoolPerformance threeBlocks (twoPools 10 20) ⟨0, 1⟩)) := by
  refine (paysRegistered_iff _ _ _ rfl).mpr fun pool poolParams hlookup _ _ => ?_
  have hall : ∀ entry ∈ twoSoloPools.entries,
      entry.2.rewardAccount.credential ∈ [StakeCredential.addrKeyHash 1, .addrKeyHash 2] := by
    decide
  exact hall _ (AList.mem_lookup_iff.mp hlookup)

/-- **The operator of a pool that does not earn its cost is paid without being registered.** -/
theorem unregisteredPool_paid :
    let params := { feesOnly 30 with prefilterUnregistered := true }
    let result := computeEpochRewards params (twoPools 10 20)
      (derivePoolPerformance threeBlocks (twoPools 10 20) ⟨0, 1⟩)
    params.registeredCredentials = [] ∧
      result.leaderDeltas.lookup ⟨0, .addrKeyHash 1⟩ = some 20 ∧
      ¬ PaysRegistered params result := by
  refine ⟨rfl, by decide +kernel, fun hpays => ?_⟩
  have hgets := hpays.leaders ⟨0, .addrKeyHash 1⟩
    (show 0 < amountAt UInt64.toNat _ _ by decide +kernel)
  cases hgets

end Yggdrasil.Ledger.Rewards
