import Yggdrasil.Ledger.Rewards.MaxPool

/-!
# Bounds on rewards

What the reward formulas never exceed: a split of a product, and the parts of a pool's operator and
members against the reward of the pool.
-/

namespace Yggdrasil.Ledger.Rewards

open Library

/-! ## Fractions of an amount -/

variable (a b : Nat) (split : ProfitSplit) (snapshot : StakeSnapshot)

theorem saturatingMul128_le : saturatingMul128 a b ≤ a * b := min_le_left _ _

theorem saturatingAdd128_le : saturatingAdd128 a b ≤ a + b := min_le_left _ _

/-- What is dropped when even the product of the remainders overflows. -/
def droppedTerm (a b c : Nat) : Nat := if a % c * (b % c) < 2 ^ 128 then 0 else a % c * (b % c) / c

variable {c : Nat}

/-- One factor is split by the divisor. -/
theorem mul_div_split (hc : 0 < c) : a * b / c = a / c * b + a % c * b / c := by
  have hsplit : a * b = a % c * b + c * (a / c * b) := by
    conv_lhs => rw [← Nat.mod_add_div a c]
    ring
  rw [hsplit, Nat.add_mul_div_left _ _ hc, add_comm]

/-- Where products overflow the factors are split, and one term may be dropped. -/
theorem floorMulDiv_eq (hc : 0 < c) :
    floorMulDiv a b c = min (a * b / c - droppedTerm a b c) (2 ^ 128 - 1) := by
  have houter := mul_div_split a b hc
  have hinner := mul_div_split b (a % c) hc
  rw [Nat.mul_comm b (a % c)] at hinner
  rw [Nat.mul_comm (b % c) (a % c)] at hinner
  have hremainder : a % c * (b % c) ≤ a % c * b := Nat.mul_le_mul_left _ (Nat.mod_le _ _)
  have hproduct : a % c * b ≤ a * b := Nat.mul_le_mul_right _ (Nat.mod_le _ _)
  have hquotient := Nat.div_le_self (a * b) c
  unfold floorMulDiv checkedMul128 droppedTerm saturatingAdd128 saturatingMul128
  rw [if_neg (Nat.pos_iff_ne_zero.mp hc), Nat.mul_comm (b % c) (a % c)]
  have hlastNonneg := Nat.zero_le (a % c * (b % c) / c)
  by_cases hfull : a * b < 2 ^ 128
  · simp only [if_pos hfull, if_pos (show a % c * (b % c) < 2 ^ 128 by omega)]
    omega
  · by_cases hpart : a % c * b < 2 ^ 128
    · simp only [if_neg hfull, if_pos hpart, if_pos (show a % c * (b % c) < 2 ^ 128 by omega)]
      omega
    · by_cases hlast : a % c * (b % c) < 2 ^ 128
      · simp only [if_neg hfull, if_neg hpart, if_pos hlast, Option.map_some, Option.getD_some]
        omega
      · simp only [if_neg hfull, if_neg hpart, if_neg hlast, Option.map_none, Option.getD_none]
        omega

theorem floorMulDiv_le_div (hc : 0 < c) : floorMulDiv a b c ≤ a * b / c := by
  rw [floorMulDiv_eq a b hc]
  exact Nat.le_trans (Nat.min_le_left _ _) (Nat.sub_le _ _)

theorem floorMulDiv_mul_le (a b c : Nat) : floorMulDiv a b c * c ≤ a * b := by
  obtain rfl | hc := Nat.eq_zero_or_pos c
  · exact Nat.zero_le _
  · exact Nat.le_trans (Nat.mul_le_mul_right c (floorMulDiv_le_div a b hc))
      (Nat.div_mul_le_self _ _)

theorem floorMulDiv_le {a b limit : Nat} (hc : 0 < c) (hle : a * b ≤ limit * c) :
    floorMulDiv a b c ≤ limit :=
  Nat.le_of_mul_le_mul_right (le_trans (floorMulDiv_mul_le a b c) hle) hc

theorem toNat_ofNat_le (n : Nat) : (UInt64.ofNat n).toNat ≤ n := by
  rw [UInt64.toNat_ofNat']
  exact Nat.mod_le _ _

theorem mulRational_mul_le (coin : UInt64) (ratio : UnitInterval) :
    (mulRational coin ratio).toNat * ratio.denominator.toNat ≤
      coin.toNat * ratio.numerator.toNat := by
  unfold mulRational
  split
  case isTrue hzero =>
    rw [hzero]
    exact Nat.zero_le _
  case isFalse _ =>
    have hfloor := floorMulDiv_mul_le coin.toNat ratio.numerator.toNat ratio.denominator.toNat
    refine Nat.le_trans (Nat.mul_le_mul_right _ ?_) hfloor
    exact le_trans (toNat_ofNat_le _) (min_le_left _ _)

/-! ## The parts of operator and members -/

/-- Who delegates to a pool. -/
def delegators (snapshot : StakeSnapshot) (pool : PoolKeyHash) : List StakeCredential :=
  (snapshot.delegations.entries.filter fun entry => entry.2 = pool).map (·.1)

/-- The stake of a list of credentials. -/
def stakeOf (snapshot : StakeSnapshot) (credentials : List StakeCredential) : Nat :=
  (credentials.map fun credential => (snapshot.stake.get credential).toNat).sum

theorem delegators_nodup (pool : PoolKeyHash) : (delegators snapshot pool).Nodup :=
  List.NodupKeys.sublist List.filter_sublist snapshot.delegations.nodupKeys

theorem mem_delegators {snapshot : StakeSnapshot} {pool : PoolKeyHash}
    {credential : StakeCredential} :
    credential ∈ delegators snapshot pool ↔ snapshot.delegations.lookup credential = some pool := by
  unfold delegators
  rw [← Option.mem_def, AList.mem_lookup_iff, List.mem_map]
  constructor
  · rintro ⟨⟨key, value⟩, hentry, rfl⟩
    rw [List.mem_filter, decide_eq_true_eq] at hentry
    obtain ⟨hmem, rfl⟩ := hentry
    exact hmem
  · intro hmem
    exact ⟨⟨credential, pool⟩, List.mem_filter.mpr ⟨hmem, decide_eq_true rfl⟩, rfl⟩

theorem stakeOf_append (first second : List StakeCredential) :
    stakeOf snapshot (first ++ second) = stakeOf snapshot first + stakeOf snapshot second := by
  unfold stakeOf
  rw [List.map_append, List.sum_append]

theorem stakeOf_le_of_subset {some all : List StakeCredential} (hdistinct : some.Nodup)
    (hsubset : some ⊆ all) :
    stakeOf snapshot some ≤ stakeOf snapshot all := by
  obtain ⟨same, hperm, hsublist⟩ := List.subperm_of_subset hdistinct hsubset
  unfold stakeOf
  rw [← (hperm.map _).sum_eq]
  exact (hsublist.map _).sum_le_sum fun _ _ => Nat.zero_le _

/-- The owners who delegate to their pool, and the others who do. -/
theorem ownersAndMembers_le (pool : PoolKeyHash) {owners : List StakeCredential}
    (hdistinct : owners.Nodup) :
    stakeOf snapshot (owners.filter fun owner => snapshot.delegations.lookup owner = some pool) +
      stakeOf snapshot ((delegators snapshot pool).filter fun member => member ∉ owners) ≤
      stakeOf snapshot (delegators snapshot pool) := by
  rw [← stakeOf_append]
  refine stakeOf_le_of_subset snapshot ?_ ?_
  · refine List.Nodup.append (hdistinct.filter _) ((delegators_nodup snapshot pool).filter _) ?_
    intro credential howner hmember
    have hother := (List.mem_filter.mp hmember).2
    rw [decide_eq_true_eq] at hother
    exact hother (List.mem_of_mem_filter howner)
  · intro credential hmem
    rcases List.mem_append.mp hmem with howner | hmember
    · have hlookup := (List.mem_filter.mp howner).2
      rw [decide_eq_true_eq] at hlookup
      exact mem_delegators.mpr hlookup
    · exact List.mem_of_mem_filter hmember

theorem memberReward_mul_le (stake : UInt64) :
    (split.memberReward stake).toNat * split.den ≤
      split.profit * (split.oneMinusMargin * stake.toNat) := by
  unfold ProfitSplit.memberReward
  split
  case isTrue _ =>
    have hfloor := floorMulDiv_mul_le split.profit
      (saturatingMul128 split.oneMinusMargin stake.toNat) split.den
    have hproduct := Nat.mul_le_mul_left split.profit
      (saturatingMul128_le split.oneMinusMargin stake.toNat)
    exact Nat.le_trans (Nat.mul_le_mul_right _ (toNat_ofNat_le _)) (Nat.le_trans hfloor hproduct)
  case isFalse _ => exact Nat.zero_mul split.den ▸ Nat.zero_le _

theorem memberRewards_mul_le (members : List StakeCredential) :
    (members.map fun member => (split.memberReward (snapshot.stake.get member)).toNat).sum *
      split.den ≤ split.profit * (split.oneMinusMargin * stakeOf snapshot members) := by
  unfold stakeOf
  induction members with
  | nil => exact Nat.zero_mul split.den ▸ Nat.zero_le _
  | cons member rest ih =>
    have hmember := memberReward_mul_le split (snapshot.stake.get member)
    rw [List.map_cons, List.sum_cons, List.map_cons, List.sum_cons, add_mul, mul_add,
      mul_add]
    exact add_le_add hmember ih

/-- What a member is paid for a delegation. -/
def memberShare (params : RewardParams) (snapshot : StakeSnapshot) (pool : PoolKeyHash)
    (poolParams : PoolParams) (split : ProfitSplit) (credential : StakeCredential)
    (delegated : PoolKeyHash) : Option UInt64 :=
  if (delegated ≠ pool ∨ credential ∈ poolParams.poolOwners.map StakeCredential.addrKeyHash ∨
      params.admits credential = false ∨ snapshot.stake.get credential = 0) ∨
      ¬0 < split.memberReward (snapshot.stake.get credential) then none
  else some (split.memberReward (snapshot.stake.get credential))

section

variable {params : RewardParams} {snapshot : StakeSnapshot} {pool : PoolKeyHash}
  {poolParams : PoolParams} {split : ProfitSplit} {credential : StakeCredential}

theorem lookup_memberRewards :
    (memberRewards params snapshot pool poolParams split).lookup credential =
      (snapshot.delegations.lookup credential).bind
        (memberShare params snapshot pool poolParams split credential) := by
  refine KeyedMap.lookup_foldl_insert (memberShare params snapshot pool poolParams split)
    (fun built entry => ?_) _ _
  dsimp only [memberShare]
  split
  next hskip => rw [if_pos (.inl hskip), Option.elim_none]
  next hskip =>
    split
    next hreward =>
      rw [if_neg (not_or.mpr ⟨hskip, not_not.mpr hreward⟩), Option.elim_some]
    next hreward => rw [if_pos (.inr hreward), Option.elim_none]

theorem memberRewards_holds {reward : UInt64}
    (hheld : (memberRewards params snapshot pool poolParams split).lookup credential =
      some reward) :
    credential ∈ delegators snapshot pool ∧
      credential ∉ poolParams.poolOwners.map StakeCredential.addrKeyHash ∧
      params.admits credential = true ∧
      reward = split.memberReward (snapshot.stake.get credential) := by
  rw [lookup_memberRewards] at hheld
  obtain ⟨delegated, hdelegated, hshare⟩ := Option.bind_eq_some_iff.mp hheld
  unfold memberShare at hshare
  split at hshare
  · cases hshare
  next hpaid =>
    cases hshare
    rw [mem_delegators, hdelegated]
    simp_all

theorem total_memberRewards_le :
    KeyedMap.total UInt64.toNat (memberRewards params snapshot pool poolParams split) ≤
      (((delegators snapshot pool).filter fun member =>
        member ∉ poolParams.poolOwners.map StakeCredential.addrKeyHash).map fun member =>
          (split.memberReward (snapshot.stake.get member)).toNat).sum := by
  refine KeyedMap.total_le_sum fun credential reward hheld => ?_
  obtain ⟨hdelegates, hother, -, rfl⟩ := memberRewards_holds hheld
  exact ⟨List.mem_filter.mpr ⟨hdelegates, decide_eq_true hother⟩, le_refl _⟩

end

theorem leaderExtra_mul_le (own : UInt64) :
    (split.leaderExtra own).toNat * split.den ≤
      split.profit * (split.marginNum * split.pool + split.oneMinusMargin * own.toNat) := by
  have hfloor := floorMulDiv_mul_le split.profit
    (saturatingAdd128 (saturatingMul128 split.marginNum split.pool)
      (saturatingMul128 split.oneMinusMargin own.toNat)) split.den
  have hparts := le_trans (saturatingAdd128_le (saturatingMul128 split.marginNum split.pool)
      (saturatingMul128 split.oneMinusMargin own.toNat))
    (add_le_add (saturatingMul128_le split.marginNum split.pool)
      (saturatingMul128_le split.oneMinusMargin own.toNat))
  exact Nat.le_trans (Nat.mul_le_mul_right _ (toNat_ofNat_le _))
    (Nat.le_trans hfloor (Nat.mul_le_mul_left _ hparts))

/-- With a margin of at most one, operator and members get at most the profit. -/
theorem profit_bound (own : UInt64) (members : List StakeCredential)
    (hden : split.den = split.marginDen * split.pool) (hpos : 0 < split.den)
    (hmargin : split.marginNum ≤ split.marginDen)
    (hstake : own.toNat + stakeOf snapshot members ≤ split.pool) :
    (split.leaderExtra own).toNat +
      (members.map fun member => (split.memberReward (snapshot.stake.get member)).toNat).sum ≤
        split.profit := by
  have hleader := leaderExtra_mul_le split own
  have hmembers := memberRewards_mul_le split snapshot members
  have hmarginDen : split.marginNum + split.oneMinusMargin = split.marginDen :=
    Nat.add_sub_cancel' hmargin
  refine Nat.le_of_mul_le_mul_right ?_ hpos
  calc ((split.leaderExtra own).toNat +
        (members.map fun member => (split.memberReward (snapshot.stake.get member)).toNat).sum) *
          split.den
      ≤ split.profit * (split.marginNum * split.pool + split.oneMinusMargin * own.toNat) +
          split.profit * (split.oneMinusMargin * stakeOf snapshot members) := by
        rw [add_mul]
        exact add_le_add hleader hmembers
    _ = split.profit * (split.marginNum * split.pool +
          split.oneMinusMargin * (own.toNat + stakeOf snapshot members)) := by ring
    _ ≤ split.profit * (split.marginNum * split.pool + split.oneMinusMargin * split.pool) :=
        Nat.mul_le_mul_left _ (Nat.add_le_add_left (Nat.mul_le_mul_left _ hstake) _)
    _ = split.profit * split.den := by rw [← add_mul, hmarginDen, hden]

theorem memberRewards_of_margin (members : List StakeCredential) (hpos : 0 < split.den)
    (hmargin : split.marginDen ≤ split.marginNum) :
    (members.map fun member => (split.memberReward (snapshot.stake.get member)).toNat).sum = 0 := by
  have hrewards := memberRewards_mul_le split snapshot members
  have hnone : split.oneMinusMargin = 0 := Nat.sub_eq_zero_of_le hmargin
  rw [hnone, Nat.zero_mul, Nat.mul_zero, Nat.le_zero, Nat.mul_eq_zero] at hrewards
  exact hrewards.resolve_right hpos.ne'

/-- What a pool's operator and members get. -/
def PoolRewardBreakdown.paid (breakdown : PoolRewardBreakdown) : Nat :=
  breakdown.leaderReward.toNat + KeyedMap.total UInt64.toNat breakdown.memberRewards

/-- **Operator and members of a pool get at most the reward of the pool.** -/
theorem paid_splitPoolReward_le (params : RewardParams) (snapshot : StakeSnapshot)
    (pool : PoolKeyHash) (poolParams : PoolParams) (poolStake apparent : UInt64)
    (hstake : (ownerDelegatedStake snapshot pool poolParams).toNat +
      stakeOf snapshot ((delegators snapshot pool).filter fun member =>
        member ∉ poolParams.poolOwners.map StakeCredential.addrKeyHash) ≤ poolStake.toNat) :
    (splitPoolReward params snapshot pool poolParams poolStake apparent).paid ≤ apparent.toNat := by
  unfold splitPoolReward
  split
  case isTrue _ => exact le_refl _
  case isFalse hprofit =>
    have hcost := UInt64.not_le.mp hprofit
    have hprofitNat : (apparent - poolParams.cost).toNat + poolParams.cost.toNat =
        apparent.toNat := by
      rw [UInt64.toNat_sub_of_le _ _ (UInt64.le_of_lt hcost)]
      exact Nat.sub_add_cancel (le_of_lt hcost)
    generalize hsplit : (⟨(apparent - poolParams.cost).toNat, poolParams.margin.numerator.toNat,
      (max poolParams.margin.denominator 1).toNat, (max poolStake 1).toNat⟩ : ProfitSplit) = split
    have hparts : split.profit = (apparent - poolParams.cost).toNat ∧
        0 < split.den ∧ split.den = split.marginDen * split.pool ∧
        poolStake.toNat ≤ split.pool := by
      have hmarginLt := (max poolParams.margin.denominator 1).toNat_lt
      have hpoolLt := (max poolStake 1).toNat_lt
      have hden : split.den = split.marginDen * split.pool := by
        rw [← hsplit]
        exact min_eq_left (Nat.le_sub_one_of_lt (PoolFractions.mul_lt hmarginLt hpoolLt))
      refine ⟨by rw [← hsplit], ?_, hden, ?_⟩
      · rw [hden, ← hsplit]
        exact Nat.mul_pos (toNat_max_one_pos _) (toNat_max_one_pos _)
      · rw [← hsplit]
        dsimp only
        rw [toNat_max_one]
        exact le_max_left _ _
    obtain ⟨hsame, hpos, hden, hpool⟩ := hparts
    have hmembers := @total_memberRewards_le params snapshot pool poolParams split
    have hleader : (if params.admits poolParams.rewardAccount.credential then
        min (saturatingAdd poolParams.cost (split.leaderExtra
          (ownerDelegatedStake snapshot pool poolParams))) apparent else 0).toNat ≤
        min (poolParams.cost.toNat + (split.leaderExtra
          (ownerDelegatedStake snapshot pool poolParams)).toNat) apparent.toNat := by
      split
      · rw [toNat_min, toNat_saturatingAdd]
        omega
      · exact Nat.zero_le _
    unfold PoolRewardBreakdown.paid
    dsimp only
    rcases le_total split.marginNum split.marginDen with hmargin | hmargin
    · have hbound := profit_bound split snapshot (ownerDelegatedStake snapshot pool poolParams) _
        hden hpos hmargin (le_trans hstake hpool)
      omega
    · -- the operator's part is capped by the reward of the pool
      rw [memberRewards_of_margin split snapshot _ hpos hmargin] at hmembers
      omega

end Yggdrasil.Ledger.Rewards
