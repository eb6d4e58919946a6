import Yggdrasil.Ledger.Rewards.RewardTotals

/-!
# The balance of an epoch's rewards

What leaves the reserves and the fees is split into the treasury's cut and the rewards pot; what
is given out and what is left over make up the pot.  The first half holds unless the sum of both
sources overflows, the second unless the rewards of the pools exceed the pot.
-/

namespace Yggdrasil.Ledger.Rewards

open Library

/-! ## The pot -/

theorem clampEta_le (eta : UnitInterval) :
    (clampEta eta).numerator.toNat ≤ (clampEta eta).denominator.toNat ∧
      0 < (clampEta eta).denominator.toNat := by
  unfold clampEta
  split
  · exact ⟨le_refl _, by decide⟩
  · rename_i hproper
    rw [not_or, UInt64.not_le] at hproper
    exact ⟨Nat.le_of_lt hproper.2, Nat.lt_of_le_of_lt (Nat.zero_le _) hproper.2⟩

theorem deltaReserves_le {params : RewardParams}
    (hrho : params.rho.numerator ≤ params.rho.denominator) :
    (deltaReserves params).toNat ≤ params.reserves.toNat := by
  obtain ⟨heta, hetaPos⟩ := clampEta_le params.eta
  have hden : params.rho.numerator.toNat ≤ (max params.rho.denominator 1).toNat := by
    rw [UInt64.le_iff_toNat_le] at hrho
    rw [toNat_max_one]
    omega
  refine le_trans (toNat_ofNat_le _)
    (floorMulDiv_le (Nat.mul_pos hetaPos (toNat_max_one_pos _)) ?_)
  exact Nat.mul_le_mul_left _ (Nat.mul_le_mul heta hden)

theorem mulRational_le {coin : UInt64} {ratio : UnitInterval}
    (hratio : ratio.numerator ≤ ratio.denominator) :
    (mulRational coin ratio).toNat ≤ coin.toNat := by
  have hmul := mulRational_mul_le coin ratio
  rw [UInt64.le_iff_toNat_le] at hratio
  rcases Nat.eq_zero_or_pos ratio.denominator.toNat with hzero | hpos
  · unfold mulRational
    rw [if_pos (UInt64.toNat_inj.mp hzero)]
    exact Nat.zero_le _
  · exact Nat.le_of_mul_le_mul_right (Nat.le_trans hmul (Nat.mul_le_mul_left _ hratio)) hpos

/-- The two parts of the pot make up its two sources, up to the largest word. -/
theorem treasuryCut_add_rewardsPot {params : RewardParams}
    (htau : params.tau.numerator ≤ params.tau.denominator) :
    (computeEpochRewardPot params).treasuryCut.toNat +
      (computeEpochRewardPot params).rewardsPot.toNat =
        min ((deltaReserves params).toNat + params.feePot.toNat) (2 ^ 64 - 1) := by
  unfold computeEpochRewardPot
  dsimp only
  have hcut := @mulRational_le (saturatingAdd (deltaReserves params) params.feePot) _ htau
  rw [toNat_saturatingSub, ← toNat_saturatingAdd]
  omega

/-! ## What is given out -/

namespace RewardsSoFar

/-- The amounts in both maps. -/
def credited (rewards : RewardsSoFar) : Nat :=
  KeyedMap.total UInt64.toNat rewards.leaderDeltas +
    KeyedMap.total UInt64.toNat rewards.rewardDeltas

/-- The running total is the sum of both maps, up to the largest word; the maps hold what was to
be given out, or at least the largest word. -/
def Tracked (given : Nat) (rewards : RewardsSoFar) : Prop :=
  rewards.totalDistributed.toNat = min rewards.credited (2 ^ 64 - 1) ∧
    rewards.credited ≤ given ∧ min given (2 ^ 64 - 1) ≤ rewards.credited

end RewardsSoFar

/-- A credit to one key of a map, beside a running total of the map and other amounts. -/
theorem tracked_credit {Key : Type} [DecidableEq Key] (map : KeyedMap Key UInt64) (key : Key)
    (amount total : UInt64) {others given : Nat}
    (htotal : total.toNat = min (KeyedMap.total UInt64.toNat map + others) (2 ^ 64 - 1))
    (hgiven : KeyedMap.total UInt64.toNat map + others ≤ given ∧
      min given (2 ^ 64 - 1) ≤ KeyedMap.total UInt64.toNat map + others) :
    (saturatingAdd total amount).toNat =
        min (KeyedMap.total UInt64.toNat (KeyedMap.upsert key 0 (saturatingAdd · amount) map) +
          others) (2 ^ 64 - 1) ∧
      KeyedMap.total UInt64.toNat (KeyedMap.upsert key 0 (saturatingAdd · amount) map) + others ≤
        given + amount.toNat ∧
      min (given + amount.toNat) (2 ^ 64 - 1) ≤
        KeyedMap.total UInt64.toNat (KeyedMap.upsert key 0 (saturatingAdd · amount) map) +
          others := by
  have hinsert := KeyedMap.total_insert UInt64.toNat map key
    (saturatingAdd ((map.lookup key).getD 0) amount)
  have hpart := KeyedMap.total_erase UInt64.toNat map key
  have hold : KeyedMap.amountAt UInt64.toNat map key = ((map.lookup key).getD 0).toNat := by
    unfold KeyedMap.amountAt
    cases map.lookup key with
    | none | some value => rfl
  rw [toNat_saturatingAdd]
  unfold KeyedMap.upsert
  dsimp only
  rw [toNat_saturatingAdd] at hinsert
  rw [hold] at hpart
  omega

variable {given : Nat} {rewards : RewardsSoFar}

theorem tracked_addLeader (h : rewards.Tracked given) (account : RewardAccount) (amount : UInt64) :
    (rewards.addLeader account amount).Tracked (given + amount.toNat) :=
  tracked_credit rewards.leaderDeltas account amount rewards.totalDistributed h.1 h.2

theorem tracked_addMember (h : rewards.Tracked given) (reward : StakeCredential × UInt64) :
    (rewards.addMember reward).Tracked (given + reward.2.toNat) := by
  unfold RewardsSoFar.Tracked RewardsSoFar.credited at h ⊢
  rw [add_comm] at h ⊢
  exact tracked_credit rewards.rewardDeltas reward.1 reward.2 rewards.totalDistributed h.1 h.2

theorem tracked_addMembers (members : List (StakeCredential × UInt64)) (h : rewards.Tracked given) :
    (members.foldl RewardsSoFar.addMember rewards).Tracked
      (given + (members.map fun member => member.2.toNat).sum) := by
  induction members generalizing given rewards with
  | nil => exact h
  | cons member rest ih =>
    rw [List.map_cons, List.sum_cons, ← add_assoc]
    exact ih (tracked_addMember h member)

theorem tracked_addPool (h : rewards.Tracked given) (pool : RewardAccount × PoolRewardBreakdown) :
    (rewards.addPool pool).Tracked (given + pool.2.paid) := by
  have hmembers : ((KeyedMap.pairs pool.2.memberRewards).map fun member => member.2.toNat).sum =
      KeyedMap.total UInt64.toNat pool.2.memberRewards := by
    unfold KeyedMap.pairs KeyedMap.total
    rw [List.map_map]
    rfl
  unfold PoolRewardBreakdown.paid
  rw [← hmembers, ← add_assoc]
  refine tracked_addMembers _ ?_
  split
  · exact tracked_addLeader h _ _
  · rename_i hnothing
    have hzero : pool.2.leaderReward.toNat = 0 := by
      rw [UInt64.lt_iff_toNat_lt, not_lt] at hnothing
      exact Nat.le_zero.mp hnothing
    rw [hzero, add_zero]
    exact h

theorem tracked_foldl (pools : List (RewardAccount × PoolRewardBreakdown))
    (h : rewards.Tracked given) :
    (pools.foldl RewardsSoFar.addPool rewards).Tracked (given + owed pools) := by
  induction pools generalizing given rewards with
  | nil => exact h
  | cons pool rest ih =>
    have hcons : owed (pool :: rest) = pool.2.paid + owed rest := rfl
    rw [hcons, ← add_assoc]
    exact ih (tracked_addPool h pool)

/-! ## The balance -/

/-- The amounts that an epoch's rewards credit to operators and members. -/
def EpochRewardDistribution.credited (result : EpochRewardDistribution) : Nat :=
  KeyedMap.total UInt64.toNat result.leaderDeltas + KeyedMap.total UInt64.toNat result.rewardDeltas

/-- The accounting of an epoch's rewards. -/
structure Balanced (params : RewardParams) (result : EpochRewardDistribution) : Prop where
  sources : result.treasuryCut.toNat + (computeEpochRewardPot params).rewardsPot.toNat =
    result.deltaReserves.toNat + params.feePot.toNat
  reserves : result.deltaReserves.toNat ≤ params.reserves.toNat
  credits : result.distributed.toNat = result.credited
  within_pot : result.distributed.toNat ≤ (computeEpochRewardPot params).rewardsPot.toNat
  leftover : result.distributed.toNat + result.unclaimed.toNat =
    (computeEpochRewardPot params).rewardsPot.toNat

theorem tracked_computeEpochRewards (params : RewardParams) (go : StakeSnapshot)
    (performance : KeyedMap PoolKeyHash UnitInterval) :
    (computeEpochRewards params go performance).distributed.toNat =
        min (computeEpochRewards params go performance).credited (2 ^ 64 - 1) ∧
      (computeEpochRewards params go performance).credited ≤
        owed (poolRewards params go performance) ∧
      min (owed (poolRewards params go performance)) (2 ^ 64 - 1) ≤
        (computeEpochRewards params go performance).credited := by
  have hstart : RewardsSoFar.Tracked 0 ⟨∅, ∅, 0⟩ := ⟨rfl, Nat.le_refl _, Nat.zero_le _⟩
  have htracked := tracked_foldl (poolRewards params go performance) hstart
  rw [zero_add] at htracked
  exact htracked

/-- The rewards balance if and only if the two sources do not overflow and the pools are owed no
more than the pot, or one saturated entry holds all of it. -/
theorem balanced_iff (params : RewardParams) (go : StakeSnapshot)
    (performance : KeyedMap PoolKeyHash UnitInterval)
    (hrho : params.rho.numerator ≤ params.rho.denominator)
    (htau : params.tau.numerator ≤ params.tau.denominator) :
    Balanced params (computeEpochRewards params go performance) ↔
      (deltaReserves params).toNat + params.feePot.toNat < 2 ^ 64 ∧
        (owed (poolRewards params go performance) ≤
            (computeEpochRewardPot params).rewardsPot.toNat ∨
          (computeEpochRewardPot params).rewardsPot.toNat = 2 ^ 64 - 1 ∧
            (computeEpochRewards params go performance).credited = 2 ^ 64 - 1) := by
  have hsources := treasuryCut_add_rewardsPot htau
  have hreserves := deltaReserves_le hrho
  obtain ⟨hcredited, hupper, hlower⟩ := tracked_computeEpochRewards params go performance
  have hunclaimed : (computeEpochRewards params go performance).unclaimed.toNat =
      (computeEpochRewardPot params).rewardsPot.toNat -
        (computeEpochRewards params go performance).distributed.toNat := toNat_saturatingSub _ _
  have hcut : (computeEpochRewards params go performance).treasuryCut =
    (computeEpochRewardPot params).treasuryCut := rfl
  have hdelta : (computeEpochRewards params go performance).deltaReserves =
    deltaReserves params := rfl
  constructor
  · intro h
    have h1 := h.sources
    have h2 := h.credits
    have h3 := h.within_pot
    rw [hcut, hdelta] at h1
    omega
  · rintro ⟨hfits, hpools⟩
    refine ⟨?_, ?_, ?_, ?_, ?_⟩
    · rw [hcut, hdelta]
      omega
    · rw [hdelta]
      exact hreserves
    · omega
    · omega
    · omega

/-- **The accounting of an epoch's rewards, exactly.**  For rates in `[0, 1]` and a go snapshot
whose owners are listed once and whose stake fits, the rewards balance if and only if the two
sources do not overflow and the pools are owed no more than the pot (or the pot is the largest
word and one saturated entry holds all of it).  The pools are owed no more than the pot while no
performance ratio is rounded up. -/
theorem balanced_iff_owed (params : RewardParams) (go : StakeSnapshot)
    (blocksMade : KeyedMap PoolKeyHash UInt64) (d : UnitInterval)
    (hrho : params.rho.numerator ≤ params.rho.denominator)
    (htau : params.tau.numerator ≤ params.tau.denominator)
    (hgo : RewardableSnapshot params go) :
    (Balanced params (computeEpochRewards params go (derivePoolPerformance blocksMade go d)) ↔
      (deltaReserves params).toNat + params.feePot.toNat < 2 ^ 64 ∧
        (owed (poolRewards params go (derivePoolPerformance blocksMade go d)) ≤
            (computeEpochRewardPot params).rewardsPot.toNat ∨
          (computeEpochRewardPot params).rewardsPot.toNat = 2 ^ 64 - 1 ∧
            (computeEpochRewards params go (derivePoolPerformance blocksMade go d)).credited =
              2 ^ 64 - 1)) ∧
      (mostlyFederated d = true ∨ RoundedDown blocksMade go →
        owed (poolRewards params go (derivePoolPerformance blocksMade go d)) ≤
          (computeEpochRewardPot params).rewardsPot.toNat) :=
  ⟨balanced_iff params go _ hrho htau, owed_poolRewards_le hgo⟩

/-! ## Two pools -/

/-- A pool whose operator keeps everything. -/
def soloPool (hash : PoolKeyHash) : PoolParams where
  operator := hash
  vrfKeyhash := 0
  pledge := 0
  cost := 340000000
  margin := ⟨1, 1⟩
  rewardAccount := ⟨0, .addrKeyHash hash⟩
  poolOwners := []
  poolMetadata := none

def twoSoloPools : KeyedMap PoolKeyHash PoolParams :=
  KeyedMap.insertAll [(1, soloPool 1), (2, soloPool 2)] ∅

/-- Two pools with one delegator each. -/
def twoPools (small large : UInt64) : StakeSnapshot where
  stake := KeyedMap.insertAll [(.addrKeyHash 1, small), (.addrKeyHash 2, large)] ∅
  delegations := KeyedMap.insertAll [(.addrKeyHash 1, 1), (.addrKeyHash 2, 2)] ∅
  poolParams := twoSoloPools

/-- Fees are the only source of rewards. -/
def feesOnly (fees : UInt64) : RewardParams where
  rho := ⟨0, 1⟩
  tau := ⟨0, 1⟩
  a0 := ⟨0, 1⟩
  nOpt := 1
  minPoolCost := 0
  reserves := 0
  feePot := fees
  maxLovelaceSupply := 0
  eta := ⟨1, 1⟩
  prefilterUnregistered := false
  registeredCredentials := []

/-- Two blocks by the first pool and one by the second. -/
def threeBlocks : KeyedMap PoolKeyHash UInt64 := KeyedMap.insertAll [(1, 2), (2, 1)] ∅

theorem twoPools_rewardable {small large fees : UInt64}
    (hactive : activeStake (twoPools small large) < 2 ^ 64) :
    RewardableSnapshot (feesOnly fees) (twoPools small large) where
  owners_nodup := by
    intro pool poolParams hlookup
    have hmem := AList.mem_lookup_iff.mp hlookup
    have howners : ∀ entry ∈ twoSoloPools.entries, entry.2.poolOwners.Nodup := by decide
    exact howners _ hmem
  active_lt := hactive
  active_le_circulation := fun hsupply => absurd hsupply (UInt64.lt_irrefl 0)

/-- Stakes of ten and twenty, rewards of thirty. -/
theorem modestEpoch_balanced :
    Balanced (feesOnly 30) (computeEpochRewards (feesOnly 30) (twoPools 10 20)
      (derivePoolPerformance threeBlocks (twoPools 10 20) ⟨0, 1⟩)) :=
  (balanced_iff_owed (feesOnly 30) (twoPools 10 20) threeBlocks ⟨0, 1⟩ (by decide) (by decide)
    (twoPools_rewardable (by decide))).1.mpr ⟨by decide, .inl (by decide +kernel)⟩

/-- **A pool of one lovelace that makes two of three blocks gets the whole pot, and the other
pool gets its third on top.**  The ratio `2 ^ 64 / 3` of the first pool becomes `2 ^ 63`. -/
theorem luckyEpoch_exceeds_pot :
    ((feesOnly (2 ^ 63)).rho.numerator ≤ (feesOnly (2 ^ 63)).rho.denominator ∧
      (feesOnly (2 ^ 63)).tau.numerator ≤ (feesOnly (2 ^ 63)).tau.denominator ∧
      RewardableSnapshot (feesOnly (2 ^ 63)) (twoPools 1 (2 ^ 63 - 1)) ∧
      KeyedMap.total UInt64.toNat (twoPools 1 (2 ^ 63 - 1)).stake < 2 ^ 64) ∧
      (computeEpochRewardPot (feesOnly (2 ^ 63))).rewardsPot = 2 ^ 63 ∧
      (computeEpochRewards (feesOnly (2 ^ 63)) (twoPools 1 (2 ^ 63 - 1))
        (derivePoolPerformance threeBlocks (twoPools 1 (2 ^ 63 - 1)) ⟨0, 1⟩)).distributed =
          2 ^ 63 + 2 ^ 63 / 3 ∧
      ¬ Balanced (feesOnly (2 ^ 63)) (computeEpochRewards (feesOnly (2 ^ 63))
        (twoPools 1 (2 ^ 63 - 1))
        (derivePoolPerformance threeBlocks (twoPools 1 (2 ^ 63 - 1)) ⟨0, 1⟩)) := by
  have hdistributed : (computeEpochRewards (feesOnly (2 ^ 63)) (twoPools 1 (2 ^ 63 - 1))
      (derivePoolPerformance threeBlocks (twoPools 1 (2 ^ 63 - 1)) ⟨0, 1⟩)).distributed =
        2 ^ 63 + 2 ^ 63 / 3 := by decide +kernel
  have hpot : (computeEpochRewardPot (feesOnly (2 ^ 63))).rewardsPot = 2 ^ 63 := by
    decide +kernel
  refine ⟨⟨by decide, by decide, twoPools_rewardable (by decide +kernel), by decide +kernel⟩,
    hpot, hdistributed, fun h => ?_⟩
  have hwithin := h.within_pot
  rw [hpot] at hwithin
  exact absurd hwithin (by decide +kernel)

end Yggdrasil.Ledger.Rewards
