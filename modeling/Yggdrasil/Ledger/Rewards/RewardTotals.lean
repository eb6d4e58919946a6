import Yggdrasil.Ledger.Rewards.RewardBounds

/-!
# Rewards against their pot

The rewards of all pools add up to at most the pot as long as no performance ratio is rounded up:
each pool gets at most its part of the blocks, or of the stake while most blocks are federated.
The ratio of `apparent_performance_ratio` is cut to 64-bit words by dividing both numbers and
rounding each of them down, which can make the fraction larger; the cap of each pool's reward at
the whole pot does not bound their sum.
-/

namespace Yggdrasil.Ledger.Rewards

open Library KeyedMap

/-! ## The stake distribution -/

/-- The stake that goes to registered pools. -/
def activeStake (snapshot : StakeSnapshot) : Nat :=
  ((snapshot.delegations.entries.filter fun entry =>
    (snapshot.poolParams.lookup entry.2).isSome).map fun entry =>
      (snapshot.stake.get entry.1).toNat).sum

abbrev Delegation := Sigma fun _ : StakeCredential => PoolKeyHash

/-- Count one delegation. -/
def addDelegation (snapshot : StakeSnapshot) (distribution : PoolStakeDistribution)
    (entry : Delegation) : PoolStakeDistribution :=
  if (snapshot.poolParams.lookup entry.2).isNone then distribution
  else if snapshot.stake.get entry.1 = 0 then distribution
  else
    { poolStakes := upsert entry.2 0 (· + snapshot.stake.get entry.1)
        distribution.poolStakes
      totalStake := saturatingAdd distribution.totalStake (snapshot.stake.get entry.1) }

variable (snapshot : StakeSnapshot)

theorem poolStakeDistribution_eq :
    snapshot.poolStakeDistribution =
      snapshot.delegations.entries.foldl (addDelegation snapshot) ⟨∅, 0⟩ := rfl

theorem poolStake_addDelegation (distribution : PoolStakeDistribution) (entry : Delegation)
    {pool : PoolKeyHash} (hknown : (snapshot.poolParams.lookup pool).isSome) :
    (addDelegation snapshot distribution entry).poolStake pool =
      distribution.poolStake pool + (if entry.2 = pool then snapshot.stake.get entry.1 else 0) := by
  unfold addDelegation
  by_cases hpool : entry.2 = pool
  · have hsome : (snapshot.poolParams.lookup entry.2).isNone = false := by
      rw [hpool, Option.isNone_eq_false_iff]
      exact hknown
    rw [hsome, if_neg Bool.false_ne_true]
    split
    · rename_i hzero
      rw [hzero, UInt64.add_zero]
    · unfold PoolStakeDistribution.poolStake upsert
      rw [← hpool, AList.lookup_insert, Option.getD_some]
  · rw [if_neg hpool, UInt64.add_zero]
    split
    · rfl
    · split
      · rfl
      · unfold PoolStakeDistribution.poolStake upsert
        rw [AList.lookup_insert_ne (Ne.symm hpool)]

theorem totalStake_addDelegation (distribution : PoolStakeDistribution) (entry : Delegation) :
    (addDelegation snapshot distribution entry).totalStake.toNat =
      min (distribution.totalStake.toNat +
        (if (snapshot.poolParams.lookup entry.2).isSome then
          (snapshot.stake.get entry.1).toNat else 0)) (2 ^ 64 - 1) := by
  have hword := distribution.totalStake.toNat_lt
  unfold addDelegation
  cases hlookup : snapshot.poolParams.lookup entry.2 with
  | none =>
    simp only [Option.isNone_none, Option.isSome_none, if_true, Bool.false_eq_true, if_false]
    omega
  | some params =>
    simp only [Option.isNone_some, Option.isSome_some, if_true, Bool.false_eq_true, if_false]
    split
    · rename_i hzero
      rw [hzero, UInt64.toNat_zero]
      omega
    · exact toNat_saturatingAdd _ _

/-- The stake of a pool after any number of delegations, with wrap-around. -/
theorem poolStake_foldl {pool : PoolKeyHash} (hknown : (snapshot.poolParams.lookup pool).isSome)
    (entries : List Delegation) (start : PoolStakeDistribution) :
    ((entries.foldl (addDelegation snapshot) start).poolStake pool).toNat =
      ((start.poolStake pool).toNat +
        stakeOf snapshot ((entries.filter fun entry => entry.2 = pool).map (·.1))) % 2 ^ 64 := by
  induction entries generalizing start with
  | nil => exact (Nat.mod_eq_of_lt (start.poolStake pool).toNat_lt).symm
  | cons entry rest ih =>
    rw [List.foldl_cons, ih, poolStake_addDelegation snapshot start entry hknown,
      UInt64.toNat_add, List.filter_cons]
    by_cases hpool : entry.2 = pool
    · rw [if_pos hpool, if_pos (decide_eq_true hpool)]
      unfold stakeOf
      rw [List.map_cons, List.map_cons, List.sum_cons, Nat.mod_add_mod, add_assoc]
    · rw [if_neg hpool, if_neg (by simpa using hpool), UInt64.toNat_zero, add_zero,
        Nat.mod_add_mod]

/-- The stake of all pools after any number of delegations, up to the largest word. -/
theorem totalStake_foldl (entries : List Delegation) (start : PoolStakeDistribution) :
    (entries.foldl (addDelegation snapshot) start).totalStake.toNat =
      min (start.totalStake.toNat +
        ((entries.filter fun entry => (snapshot.poolParams.lookup entry.2).isSome).map
          fun entry => (snapshot.stake.get entry.1).toNat).sum) (2 ^ 64 - 1) := by
  induction entries generalizing start with
  | nil =>
    have hword := start.totalStake.toNat_lt
    rw [List.foldl_nil, List.filter_nil, List.map_nil, List.sum_nil]
    omega
  | cons entry rest ih =>
    rw [List.foldl_cons, ih, totalStake_addDelegation, List.filter_cons]
    split
    · rw [List.map_cons, List.sum_cons]
      omega
    · omega

/-- The delegators of registered pools hold no more than the active stake. -/
theorem sum_delegators_le {pools : List PoolKeyHash} (hdistinct : pools.Nodup)
    (hknown : ∀ pool ∈ pools, (snapshot.poolParams.lookup pool).isSome) :
    (pools.map fun pool => stakeOf snapshot (delegators snapshot pool)).sum ≤
      activeStake snapshot := by
  have hparts : (pools.map fun pool => stakeOf snapshot (delegators snapshot pool)).sum =
      stakeOf snapshot (pools.flatMap (delegators snapshot)) := by
    unfold stakeOf
    rw [List.map_flatMap, List.flatMap_def, List.sum_flatten, List.map_map]
    rfl
  have hall : activeStake snapshot = stakeOf snapshot ((snapshot.delegations.entries.filter
      fun entry => (snapshot.poolParams.lookup entry.2).isSome).map (·.1)) := by
    unfold activeStake stakeOf
    rw [List.map_map]
    rfl
  rw [hparts, hall]
  refine stakeOf_le_of_subset snapshot (List.nodup_flatMap.mpr
    ⟨fun pool _ => delegators_nodup snapshot pool, ?_⟩) ?_
  · -- nobody delegates to two pools
    refine hdistinct.imp fun hne credential hfirst hsecond => hne ?_
    rw [mem_delegators] at hfirst hsecond
    exact Option.some.inj (hfirst.symm.trans hsecond)
  · intro credential hmem
    obtain ⟨pool, hpool, hdelegates⟩ := List.mem_flatMap.mp hmem
    have hentry := AList.mem_lookup_iff.mp (mem_delegators.mp hdelegates)
    exact List.mem_map_of_mem (List.mem_filter.mpr ⟨hentry, hknown pool hpool⟩)

section

variable {snapshot : StakeSnapshot} (hactive : activeStake snapshot < 2 ^ 64)
include hactive

theorem totalActiveStake_eq :
    snapshot.poolStakeDistribution.totalActiveStake.toNat = activeStake snapshot := by
  have htotal := totalStake_foldl snapshot snapshot.delegations.entries ⟨∅, 0⟩
  rw [← poolStakeDistribution_eq] at htotal
  rw [UInt64.toNat_zero, zero_add] at htotal
  unfold PoolStakeDistribution.totalActiveStake
  rw [htotal]
  exact min_eq_left (Nat.le_sub_one_of_lt hactive)

variable (rewardsPot : UInt64) (params : RewardParams) {poolParams : PoolParams}
  {pool : PoolKeyHash}

theorem poolStake_eq (hknown : (snapshot.poolParams.lookup pool).isSome) :
    (snapshot.poolStakeDistribution.poolStake pool).toNat =
      stakeOf snapshot (delegators snapshot pool) := by
  have hpart := sum_delegators_le snapshot (List.nodup_singleton pool)
    (fun other hother => (List.mem_singleton.mp hother) ▸ hknown)
  rw [List.map_singleton] at hpart
  have hpool := poolStake_foldl snapshot hknown snapshot.delegations.entries ⟨∅, 0⟩
  have hempty : ((⟨∅, 0⟩ : PoolStakeDistribution).poolStake pool).toNat = 0 := rfl
  rw [← poolStakeDistribution_eq, hempty, zero_add] at hpool
  rw [hpool]
  exact Nat.mod_eq_of_lt (lt_of_le_of_lt hpart hactive)

variable (hlookup : snapshot.poolParams.lookup pool = some poolParams)
include hlookup

/-- The owners' stake, which the code adds up with wrap-around, and the stake of the others. -/
theorem ownersAndMembers_poolStake (hdistinct : poolParams.poolOwners.Nodup) :
    (ownerDelegatedStake snapshot pool poolParams).toNat +
      stakeOf snapshot ((delegators snapshot pool).filter fun member =>
        member ∉ poolParams.poolOwners.map StakeCredential.addrKeyHash) ≤
          (snapshot.poolStakeDistribution.poolStake pool).toNat := by
  have howners := hdistinct.map fun _ _ hsame => StakeCredential.addrKeyHash.inj hsame
  have hboth := ownersAndMembers_le snapshot pool howners
  have hown : (ownerDelegatedStake snapshot pool poolParams).toNat ≤
      stakeOf snapshot ((poolParams.poolOwners.map StakeCredential.addrKeyHash).filter
        fun owner => snapshot.delegations.lookup owner = some pool) := by
    unfold ownerDelegatedStake
    rw [toNat_foldl_add]
    refine le_trans (Nat.mod_le _ _) (le_of_eq ?_)
    rw [UInt64.toNat_zero, zero_add]
    unfold stakeOf
    induction poolParams.poolOwners with
    | nil => rfl
    | cons owner rest ih =>
      rw [List.map_cons, List.map_cons, List.sum_cons, List.map_cons, List.filter_cons, ih]
      split
      · rename_i hdelegates
        rw [if_pos (decide_eq_true hdelegates), List.map_cons, List.sum_cons]
      · rename_i hother
        rw [if_neg (by simpa using hother), UInt64.toNat_zero,
          zero_add]
  rw [poolStake_eq hactive (hlookup ▸ rfl)]
  omega

/-- What a pool gets, through the reward it would have with all its blocks. -/
theorem paid_computePoolReward (hdistinct : poolParams.poolOwners.Nodup)
    (performance : UnitInterval) :
    ∃ optimal : UInt64,
      optimal.toNat * (totalStakeForSigma params snapshot.poolStakeDistribution).toNat ≤
        rewardsPot.toNat * (snapshot.poolStakeDistribution.poolStake pool).toNat ∧
      (totalStakeForSigma params snapshot.poolStakeDistribution = 0 → optimal = 0) ∧
      (computePoolReward rewardsPot params pool snapshot snapshot.poolStakeDistribution
        performance).paid ≤ (mulRational optimal performance).toNat := by
  have hstake := ownersAndMembers_poolStake hactive hlookup hdistinct
  unfold computePoolReward
  rw [hlookup]
  dsimp only
  generalize snapshot.poolStakeDistribution.poolStake pool = poolStake at hstake ⊢
  generalize totalStakeForSigma params snapshot.poolStakeDistribution = total
  refine ⟨maxPoolReward _ params.nOpt params.a0 poolStake poolParams.pledge total,
    maxPoolReward_mul_le _ _ _ _ _ _, fun hzero => ?_, ?_⟩
  · unfold maxPoolReward
    rw [if_pos (.inl hzero)]
  · split
    · exact Nat.zero_le _
    · refine le_trans (paid_splitPoolReward_le params snapshot pool _ poolStake _
        hstake) ?_
      unfold mulRationalCapped
      rw [toNat_min]
      exact min_le_left _ _

/-- **A pool gets at most the part of the pot that its performance, times its share of the stake,
stands for.** -/
theorem paid_computePoolReward_le (hdistinct : poolParams.poolOwners.Nodup)
    (performance : UnitInterval) {whole part : Nat}
    (hpart : 0 < (totalStakeForSigma params snapshot.poolStakeDistribution).toNat →
      (snapshot.poolStakeDistribution.poolStake pool).toNat * performance.numerator.toNat * whole ≤
        part * performance.denominator.toNat *
          (totalStakeForSigma params snapshot.poolStakeDistribution).toNat) :
    (computePoolReward rewardsPot params pool snapshot snapshot.poolStakeDistribution
      performance).paid * whole ≤ rewardsPot.toNat * part := by
  obtain ⟨optimal, hoptimal, hzero, hpaid⟩ :=
    paid_computePoolReward hactive rewardsPot params hlookup hdistinct performance
  have hratio := mulRational_mul_le optimal performance
  generalize (computePoolReward rewardsPot params pool snapshot snapshot.poolStakeDistribution
    performance).paid = paid at hpaid ⊢
  generalize totalStakeForSigma params snapshot.poolStakeDistribution = total at *
  generalize (snapshot.poolStakeDistribution.poolStake pool).toNat = poolStake at *
  by_cases hnone : (mulRational optimal performance).toNat = 0
  · rw [hnone, Nat.le_zero] at hpaid
    rw [hpaid, Nat.zero_mul]
    exact Nat.zero_le _
  -- something is paid only for a ratio with a denominator and against some stake
  have hden : 0 < performance.denominator.toNat := by
    refine pos_of_ne_zero fun hden => hnone ?_
    unfold mulRational
    rw [if_pos (UInt64.toNat_inj.mp hden)]
    rfl
  have htotal : 0 < total.toNat := by
    refine pos_of_ne_zero fun htotal => hnone ?_
    have hcoin : optimal.toNat = 0 := congrArg UInt64.toNat (hzero (UInt64.toNat_inj.mp htotal))
    rw [hcoin, Nat.zero_mul, Nat.le_zero, Nat.mul_eq_zero] at hratio
    exact hratio.resolve_right hden.ne'
  have hshare := hpart htotal
  refine Nat.le_of_mul_le_mul_right ?_ (Nat.mul_pos hden htotal)
  calc paid * whole * (performance.denominator.toNat * total.toNat)
      ≤ (mulRational optimal performance).toNat * whole *
          (performance.denominator.toNat * total.toNat) := by gcongr
    _ = (mulRational optimal performance).toNat * performance.denominator.toNat *
          (total.toNat * whole) := by ring
    _ ≤ optimal.toNat * performance.numerator.toNat * (total.toNat * whole) := by gcongr
    _ = optimal.toNat * total.toNat * (performance.numerator.toNat * whole) := by ring
    _ ≤ rewardsPot.toNat * poolStake * (performance.numerator.toNat * whole) := by gcongr
    _ = rewardsPot.toNat * (poolStake * performance.numerator.toNat * whole) := by ring
    _ ≤ rewardsPot.toNat * (part * performance.denominator.toNat * total.toNat) := by gcongr
    _ = rewardsPot.toNat * part * (performance.denominator.toNat * total.toNat) := by ring

end

/-! ## The performance of pools -/

/-- The ratio that a pool is paid for. -/
def ratioOf (performance : KeyedMap PoolKeyHash UnitInterval) (pool : PoolKeyHash) :
    UnitInterval := (performance.lookup pool).getD ⟨0, 1⟩

/-- **No ratio is rounded up.**  The blocks add up to a 64-bit number, and the ratio of every pool
is at most its blocks against its share of the stake. -/
def RoundedDown (blocksMade : KeyedMap PoolKeyHash UInt64) (go : StakeSnapshot) : Prop :=
  total UInt64.toNat blocksMade < 2 ^ 64 ∧
    ∀ pool blocks ratio, blocksMade.lookup pool = some blocks →
      apparentPerformanceRatio blocks go.poolStakeDistribution.totalActiveStake
        (go.poolStakeDistribution.poolStake pool) (totalBlocks blocksMade) = some ratio →
      ratio.numerator.toNat * ((go.poolStakeDistribution.poolStake pool).toNat *
          total UInt64.toNat blocksMade) ≤
        blocks.toNat * go.poolStakeDistribution.totalActiveStake.toNat *
          ratio.denominator.toNat

variable {go : StakeSnapshot} {blocksMade : KeyedMap PoolKeyHash UInt64}

variable {d : UnitInterval}

theorem ratioOf_federated (hfederated : mostlyFederated d = true) (pool : PoolKeyHash) :
    (ratioOf (derivePoolPerformance blocksMade go d) pool).numerator.toNat ≤
      (ratioOf (derivePoolPerformance blocksMade go d) pool).denominator.toNat := by
  have hlookup : (derivePoolPerformance blocksMade go d).lookup pool =
      (blocksMade.lookup pool).bind fun _ => some ⟨1, 1⟩ := by
    unfold derivePoolPerformance
    rw [if_pos hfederated]
    exact lookup_foldl_insert (fun _ _ => some _)
      (fun _ _ => rfl) _ pool
  unfold ratioOf
  rw [hlookup]
  cases blocksMade.lookup pool with
  | none => decide
  | some blocks => exact le_refl _

theorem totalBlocks_toNat (blocksMade : KeyedMap PoolKeyHash UInt64) :
    (totalBlocks blocksMade).toNat = total UInt64.toNat blocksMade % 2 ^ 64 := by
  unfold totalBlocks total
  rw [toNat_foldl_add, List.map_map, UInt64.toNat_zero, zero_add]
  rfl

theorem ratioOf_roundedDown (hfederated : mostlyFederated d = false)
    (hrounded : RoundedDown blocksMade go) (pool : PoolKeyHash) :
    (ratioOf (derivePoolPerformance blocksMade go d) pool).numerator.toNat *
        ((go.poolStakeDistribution.poolStake pool).toNat *
          total UInt64.toNat blocksMade) ≤
      amountAt UInt64.toNat blocksMade pool *
        go.poolStakeDistribution.totalActiveStake.toNat *
          (ratioOf (derivePoolPerformance blocksMade go d) pool).denominator.toNat := by
  have hnone : ∀ rest : Nat, (⟨0, 1⟩ : UnitInterval).numerator.toNat * rest = 0 :=
    fun rest => Nat.zero_mul rest
  have hlookup : (derivePoolPerformance blocksMade go d).lookup pool = none ∨
      (derivePoolPerformance blocksMade go d).lookup pool = (blocksMade.lookup pool).bind
        fun blocks => apparentPerformanceRatio blocks
          go.poolStakeDistribution.totalActiveStake (go.poolStakeDistribution.poolStake pool)
          (totalBlocks blocksMade) := by
    unfold derivePoolPerformance
    rw [hfederated, if_neg Bool.false_ne_true]
    dsimp only
    split
    · exact .inl rfl
    · refine .inr (lookup_foldl_insert (fun pool blocks =>
        apparentPerformanceRatio blocks go.poolStakeDistribution.totalActiveStake
          (go.poolStakeDistribution.poolStake pool) _) ?_ blocksMade pool)
      intro performance entry
      cases apparentPerformanceRatio entry.2 go.poolStakeDistribution.totalActiveStake
        (go.poolStakeDistribution.poolStake entry.1) (totalBlocks blocksMade) with
      | none | some ratio => rfl
  unfold ratioOf
  rcases hlookup with hlookup | hlookup
  · rw [hlookup, Option.getD_none, hnone]
    exact Nat.zero_le _
  · rw [hlookup]
    cases hblocks : blocksMade.lookup pool with
    | none =>
      rw [Option.bind_none, Option.getD_none, hnone]
      exact Nat.zero_le _
    | some blocks =>
      rw [Option.bind_some, amountAt_of_lookup hblocks]
      cases hratio : apparentPerformanceRatio blocks
          go.poolStakeDistribution.totalActiveStake
          (go.poolStakeDistribution.poolStake pool) (totalBlocks blocksMade) with
      | none =>
        rw [Option.getD_none, hnone]
        exact Nat.zero_le _
      | some ratio => exact hrounded.2 pool blocks ratio hblocks hratio

/-! ## All pools -/

theorem sum_le_of_weights {Item : Type} {items : List Item} {part weight : Item → Nat}
    {pot whole : Nat} (hwhole : 0 < whole)
    (hpart : ∀ item ∈ items, part item * whole ≤ pot * weight item)
    (hweights : (items.map weight).sum ≤ whole) : (items.map part).sum ≤ pot := by
  have hscaled : (items.map part).sum * whole ≤ pot * (items.map weight).sum := by
    clear hweights
    induction items with
    | nil => exact Nat.zero_mul whole ▸ Nat.zero_le _
    | cons item rest ih =>
      rw [List.map_cons, List.sum_cons, List.map_cons, List.sum_cons, add_mul, mul_add]
      exact add_le_add (hpart item List.mem_cons_self)
        (ih fun other hother => hpart other (List.mem_cons_of_mem _ hother))
  exact Nat.le_of_mul_le_mul_right
    (Nat.le_trans hscaled (Nat.mul_le_mul_left pot hweights)) hwhole

/-- What all pools together are to get. -/
def owed (rewards : List (RewardAccount × PoolRewardBreakdown)) : Nat :=
  (rewards.map fun pool => pool.2.paid).sum

/-- A go snapshot that rewards can be computed from: owners are listed once, and the stake of the
registered pools is a 64-bit number, within the circulation if that is known. -/
structure RewardableSnapshot (params : RewardParams) (go : StakeSnapshot) : Prop where
  owners_nodup : ∀ pool poolParams, go.poolParams.lookup pool = some poolParams →
    poolParams.poolOwners.Nodup
  active_lt : activeStake go < 2 ^ 64
  active_le_circulation : 0 < params.maxLovelaceSupply →
    activeStake go ≤ params.maxLovelaceSupply.toNat - params.reserves.toNat

variable {params : RewardParams}

theorem RewardableSnapshot.active_le_total (h : RewardableSnapshot params go) :
    activeStake go ≤ (totalStakeForSigma params go.poolStakeDistribution).toNat := by
  unfold totalStakeForSigma
  split
  · rename_i hsupply
    rw [toNat_saturatingSub]
    exact h.active_le_circulation hsupply
  · exact le_of_eq (totalActiveStake_eq h.active_lt).symm

theorem lookup_of_mem_entries {Key Value : Type} [DecidableEq Key] {map : KeyedMap Key Value}
    {entry : Sigma fun _ : Key => Value} (hentry : entry ∈ map.entries) :
    map.lookup entry.1 = some entry.2 := AList.mem_lookup_iff.mpr hentry

theorem sum_poolStakes_le (hactive : activeStake go < 2 ^ 64) :
    (go.poolParams.entries.map fun entry =>
      (go.poolStakeDistribution.poolStake entry.1).toNat).sum ≤ activeStake go := by
  have hpools := sum_delegators_le go go.poolParams.keys_nodup
    (fun pool hpool => AList.lookup_isSome.mpr hpool)
  have hsame : (go.poolParams.entries.map fun entry =>
      (go.poolStakeDistribution.poolStake entry.1).toNat) =
        go.poolParams.keys.map fun pool => stakeOf go (delegators go pool) := by
    unfold AList.keys List.keys
    rw [List.map_map]
    refine List.map_congr_left fun entry hentry => ?_
    exact poolStake_eq hactive (lookup_of_mem_entries hentry ▸ rfl)
  rw [hsame]
  exact hpools

theorem sum_blocks_le (blocksMade : KeyedMap PoolKeyHash UInt64)
    (pools : KeyedMap PoolKeyHash PoolParams) :
    (pools.entries.map fun entry => amountAt UInt64.toNat blocksMade entry.1).sum ≤
      total UInt64.toNat blocksMade := by
  have htotal := total_eraseAll_of_nodup UInt64.toNat pools.keys_nodup blocksMade
  have hsame : (pools.entries.map fun entry =>
      amountAt UInt64.toNat blocksMade entry.1) =
        pools.keys.map (amountAt UInt64.toNat blocksMade) := by
    unfold AList.keys List.keys
    rw [List.map_map]
    rfl
  rw [hsame]
  omega

/-- Pools that stand for parts of a whole get no more than the pot. -/
theorem owed_le_of_parts (hgo : RewardableSnapshot params go)
    {performance : KeyedMap PoolKeyHash UnitInterval} {whole : Nat} (hwhole : 0 < whole)
    (part : PoolKeyHash → Nat)
    (hparts : (go.poolParams.entries.map fun entry => part entry.1).sum ≤ whole)
    (hpart : ∀ pool, 0 < (totalStakeForSigma params go.poolStakeDistribution).toNat →
      (go.poolStakeDistribution.poolStake pool).toNat *
          (ratioOf performance pool).numerator.toNat * whole ≤
        part pool * (ratioOf performance pool).denominator.toNat *
          (totalStakeForSigma params go.poolStakeDistribution).toNat) :
    owed (poolRewards params go performance) ≤ (computeEpochRewardPot params).rewardsPot.toNat := by
  unfold owed poolRewards
  rw [List.map_map]
  refine sum_le_of_weights hwhole (fun entry hentry => ?_) hparts
  have hlookup := lookup_of_mem_entries hentry
  exact paid_computePoolReward_le hgo.active_lt _ params hlookup (hgo.owners_nodup _ _ hlookup)
    _ (hpart entry.1)

/-- **Rewards stay within their pot while no performance ratio is rounded up.** -/
theorem owed_poolRewards_le (hgo : RewardableSnapshot params go)
    (hrounded : mostlyFederated d = true ∨ RoundedDown blocksMade go) :
    owed (poolRewards params go (derivePoolPerformance blocksMade go d)) ≤
      (computeEpochRewardPot params).rewardsPot.toNat := by
  have htotal := hgo.active_le_total
  rcases Nat.eq_zero_or_pos (totalStakeForSigma params go.poolStakeDistribution).toNat with
    hidle | hsigma
  · -- against no stake nobody gets anything
    exact owed_le_of_parts hgo Nat.one_pos (fun _ => 0) (by simp)
      fun _ hsigma => absurd hidle hsigma.ne'
  by_cases hfederated : mostlyFederated d = true
  · -- every pool that made blocks counts with its stake
    have hparts := le_trans (sum_poolStakes_le hgo.active_lt) htotal
    refine owed_le_of_parts hgo hsigma
      (fun pool => (go.poolStakeDistribution.poolStake pool).toNat) hparts fun pool _ => ?_
    have hratio := @ratioOf_federated go blocksMade d hfederated pool
    gcongr
  · -- every pool counts with its blocks
    have hfair := hrounded.resolve_left hfederated
    rw [Bool.not_eq_true] at hfederated
    rcases Nat.eq_zero_or_pos (total UInt64.toNat blocksMade) with hidle | hblocks
    · have hnobody : derivePoolPerformance blocksMade go d = ∅ := by
        have hzero : totalBlocks blocksMade = 0 := UInt64.toNat_inj.mp (by
          rw [totalBlocks_toNat, hidle]
          rfl)
        unfold derivePoolPerformance
        rw [hfederated, if_neg Bool.false_ne_true]
        rw [if_pos (.inr hzero)]
      refine owed_le_of_parts hgo Nat.one_pos (fun _ => 0) (by simp) fun pool _ => ?_
      have hratio : (ratioOf ∅ pool).numerator.toNat = 0 := rfl
      rw [hnobody, hratio]
      simp
    · refine owed_le_of_parts hgo hblocks _
        (sum_blocks_le _ go.poolParams) fun pool _ => ?_
      have hratio := ratioOf_roundedDown hfederated hfair pool
      rw [totalActiveStake_eq hgo.active_lt] at hratio
      generalize ratioOf (derivePoolPerformance blocksMade go d) pool = ratio at hratio ⊢
      generalize (go.poolStakeDistribution.poolStake pool).toNat = poolStake at hratio ⊢
      calc poolStake * ratio.numerator.toNat * total UInt64.toNat blocksMade
          = ratio.numerator.toNat * (poolStake * total UInt64.toNat blocksMade) := by
            ring
        _ ≤ amountAt UInt64.toNat blocksMade pool * activeStake go *
              ratio.denominator.toNat := hratio
        _ ≤ amountAt UInt64.toNat blocksMade pool *
              (totalStakeForSigma params go.poolStakeDistribution).toNat *
                ratio.denominator.toNat := by gcongr
        _ = _ := Nat.mul_right_comm _ _ _

end Yggdrasil.Ledger.Rewards
