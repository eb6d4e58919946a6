import Yggdrasil.Ledger.Rewards.WideArithmetic
import Yggdrasil.Ledger.StakeSnapshots

/-!
# Rewards of an epoch

The reward pot, the reward of a pool and its split between operator and members (`rewards.rs`),
and the performance of pools from the blocks they made (`epoch_boundary.rs`).  128-bit words are
naturals with the overflow handling of the source written out.
-/

namespace Yggdrasil.Ledger.Rewards

open Library

/-! ## Arithmetic -/

def saturatingMul128 (a b : Nat) : Nat := min (a * b) (2 ^ 128 - 1)

def saturatingAdd128 (a b : Nat) : Nat := min (a + b) (2 ^ 128 - 1)

/-- A product of 128-bit words, unless it overflows. -/
def checkedMul128 (a b : Nat) : Option Nat := if a * b < 2 ^ 128 then some (a * b) else none

/-- `a * b / c` rounded down, splitting the factors where a product overflows. -/
def floorMulDiv (a b c : Nat) : Nat :=
  if c = 0 then 0
  else
    match checkedMul128 a b with
    | some product => product / c
    | none =>
      saturatingAdd128 (saturatingMul128 (a / c) b)
        (match checkedMul128 (a % c) b with
        | some product => product / c
        | none =>
          saturatingAdd128 (saturatingMul128 (b / c) (a % c))
            (((checkedMul128 (b % c) (a % c)).map (· / c)).getD 0))

/-- A share of an amount, rounded down. -/
def mulRational (coin : UInt64) (ratio : UnitInterval) : UInt64 :=
  if ratio.denominator = 0 then 0
  else .ofNat (min (floorMulDiv coin.toNat ratio.numerator.toNat ratio.denominator.toNat)
    (2 ^ 64 - 1))

def mulRationalCapped (coin : UInt64) (ratio : UnitInterval) (cap : UInt64) : UInt64 :=
  min (mulRational coin ratio) cap

/-! ## The reward pot -/

structure RewardParams where
  rho : UnitInterval
  tau : UnitInterval
  a0 : UnitInterval
  nOpt : UInt64
  minPoolCost : UInt64
  reserves : UInt64
  feePot : UInt64
  /-- Zero when unknown. -/
  maxLovelaceSupply : UInt64
  eta : UnitInterval
  /-- Drop the rewards of unregistered credentials before they are counted. -/
  prefilterUnregistered : Bool
  registeredCredentials : List StakeCredential

structure EpochRewardPot where
  rewardsPot : UInt64
  treasuryCut : UInt64
  deltaReserves : UInt64
deriving DecidableEq, Repr

/-- The efficiency of an epoch, at most one. -/
def clampEta (eta : UnitInterval) : UnitInterval :=
  if eta.denominator = 0 ∨ eta.denominator ≤ eta.numerator then ⟨1, 1⟩ else eta

/-- What leaves the reserves. -/
def deltaReserves (params : RewardParams) : UInt64 :=
  let eta := clampEta params.eta
  .ofNat (floorMulDiv params.reserves.toNat (eta.numerator.toNat * params.rho.numerator.toNat)
    (eta.denominator.toNat * (max params.rho.denominator 1).toNat))

def computeEpochRewardPot (params : RewardParams) : EpochRewardPot :=
  let totalReward := saturatingAdd (deltaReserves params) params.feePot
  let treasuryCut := mulRational totalReward params.tau
  { rewardsPot := saturatingSub totalReward treasuryCut
    treasuryCut := treasuryCut
    deltaReserves := deltaReserves params }

/-! ## The reward of a pool -/

/-- A share of the total, at most `1 / k`, in lowest terms. -/
def cappedShare (part total k : Nat) : Nat × Nat :=
  let share := if (checkedMul128 part k).any (· ≤ total) then (part, total) else (1, k)
  let g := max (Nat.gcd share.1 share.2) 1
  (share.1 / g, share.2 / g)

/-- The reward of a pool that made all its blocks. -/
def maxPoolReward (rewardsPot nOpt : UInt64) (a0 : UnitInterval)
    (poolStake pledge totalStake : UInt64) : UInt64 :=
  if totalStake = 0 ∨ nOpt = 0 ∨ rewardsPot = 0 ∨ poolStake = 0 then 0
  else
    let word (n : Nat) : U128 := .ofNat 128 n
    let k := nOpt.toNat
    let a0Num := a0.numerator.toNat
    let a0Den := (max a0.denominator 1).toNat
    let (sigNum, sigDen) := cappedShare poolStake.toNat totalStake.toNat k
    let (sNum, sDen) := cappedShare pledge.toNat totalStake.toNat k
    let f4Num := sigDen - saturatingMul128 k sigNum
    let product := U256.wideningMul (word sigNum) (word sDen)
    let offset := U256.wideningMul (word sNum) (word f4Num)
    let negative := product.lt offset
    let diff := if negative then offset.checkedSub product else product.checkedSub offset
    let diffDen := U256.wideningMul (word sigDen) (word sDen)
    let term1 := U512.mulU256 ((U256.wideningMul (word a0Den) (word sigNum)).mulU128 (word sDen))
      diffDen
    let term2 := (U512.mulU256 ((U256.wideningMul (word sNum) (word a0Num)).mulU128 (word k))
      diff).mulU128 (word sigDen)
    let den := U512.mulU256 (diffDen.mulU128 (word (a0Den + a0Num))) diffDen
    if negative && (term1.lt term2 || term1 = term2) then 0
    else
      let inner := if negative then term1.sub term2 else term1.add term2
      .ofNat (min (u512DivU512 (inner.mulU128 (word rewardsPot.toNat)) den).toNat (2 ^ 64 - 1))

structure PoolRewardBreakdown where
  apparentPerformanceReward : UInt64
  leaderReward : UInt64
  memberRewards : KeyedMap StakeCredential UInt64

def PoolRewardBreakdown.nothing : PoolRewardBreakdown := ⟨0, 0, ∅⟩

/-- The stake that the owners of a pool delegate to it. -/
def ownerDelegatedStake (snapshot : StakeSnapshot) (pool : PoolKeyHash) (params : PoolParams) :
    UInt64 :=
  (params.poolOwners.map fun owner =>
    if snapshot.delegations.lookup (.addrKeyHash owner) = some pool then
      snapshot.stake.get (.addrKeyHash owner)
    else 0).foldl (· + ·) 0

/-- The stake that shares are taken of. -/
def totalStakeForSigma (params : RewardParams) (distribution : PoolStakeDistribution) : UInt64 :=
  if 0 < params.maxLovelaceSupply then saturatingSub params.maxLovelaceSupply params.reserves
  else distribution.totalActiveStake

/-- A credential may be rewarded: it is registered, or nobody asks. -/
def RewardParams.admits (params : RewardParams) (credential : StakeCredential) : Bool :=
  !params.prefilterUnregistered || credential ∈ params.registeredCredentials

/-- How a pool splits its profit. -/
structure ProfitSplit where
  profit : Nat
  marginNum : Nat
  marginDen : Nat
  pool : Nat

namespace ProfitSplit

def oneMinusMargin (split : ProfitSplit) : Nat := split.marginDen - split.marginNum

def den (split : ProfitSplit) : Nat := saturatingMul128 split.marginDen split.pool

/-- The operator's part of the profit. -/
def leaderExtra (split : ProfitSplit) (own : UInt64) : UInt64 :=
  .ofNat (floorMulDiv split.profit
    (saturatingAdd128 (saturatingMul128 split.marginNum split.pool)
      (saturatingMul128 split.oneMinusMargin own.toNat)) split.den)

/-- A member's part of the profit. -/
def memberReward (split : ProfitSplit) (stake : UInt64) : UInt64 :=
  if 0 < split.den then
    .ofNat (floorMulDiv split.profit (saturatingMul128 split.oneMinusMargin stake.toNat) split.den)
  else 0

end ProfitSplit

/-- The members of a pool who get something. -/
def memberRewards (params : RewardParams) (snapshot : StakeSnapshot) (pool : PoolKeyHash)
    (poolParams : PoolParams) (split : ProfitSplit) : KeyedMap StakeCredential UInt64 :=
  let owners := poolParams.poolOwners.map StakeCredential.addrKeyHash
  snapshot.delegations.entries.foldl (fun rewards entry =>
    if entry.2 ≠ pool ∨ entry.1 ∈ owners ∨ params.admits entry.1 = false ∨
        snapshot.stake.get entry.1 = 0 then rewards
    else
      let reward := split.memberReward (snapshot.stake.get entry.1)
      if 0 < reward then rewards.insert entry.1 reward else rewards) ∅

/-- The split of a pool's reward once its owners have met their pledge. -/
def splitPoolReward (params : RewardParams) (snapshot : StakeSnapshot) (pool : PoolKeyHash)
    (poolParams : PoolParams) (poolStake apparent : UInt64) : PoolRewardBreakdown :=
  if apparent ≤ poolParams.cost then ⟨apparent, apparent, ∅⟩
  else
    let split : ProfitSplit :=
      { profit := (apparent - poolParams.cost).toNat
        marginNum := poolParams.margin.numerator.toNat
        marginDen := (max poolParams.margin.denominator 1).toNat
        pool := (max poolStake 1).toNat }
    let own := ownerDelegatedStake snapshot pool poolParams
    let raw := min (saturatingAdd poolParams.cost (split.leaderExtra own)) apparent
    { apparentPerformanceReward := apparent
      leaderReward := if params.admits poolParams.rewardAccount.credential then raw else 0
      memberRewards := memberRewards params snapshot pool poolParams split }

/-- The reward of a pool and who gets it. -/
def computePoolReward (rewardsPot : UInt64) (params : RewardParams) (pool : PoolKeyHash)
    (snapshot : StakeSnapshot) (distribution : PoolStakeDistribution)
    (performance : UnitInterval) : PoolRewardBreakdown :=
  match snapshot.poolParams.lookup pool with
  | none => .nothing
  | some poolParams =>
    if ownerDelegatedStake snapshot pool poolParams < poolParams.pledge then .nothing
    else
      let poolStake := distribution.poolStake pool
      let optimal := maxPoolReward rewardsPot params.nOpt params.a0 poolStake
        poolParams.pledge (totalStakeForSigma params distribution)
      splitPoolReward params snapshot pool poolParams poolStake
        (mulRationalCapped optimal performance rewardsPot)

/-! ## The rewards of all pools -/

structure EpochRewardDistribution where
  /-- Rewards of members, by credential. -/
  rewardDeltas : KeyedMap StakeCredential UInt64
  /-- Rewards of operators, by account. -/
  leaderDeltas : KeyedMap RewardAccount UInt64
  treasuryCut : UInt64
  distributed : UInt64
  unclaimed : UInt64
  deltaReserves : UInt64

/-- What has been given out so far. -/
structure RewardsSoFar where
  rewardDeltas : KeyedMap StakeCredential UInt64
  leaderDeltas : KeyedMap RewardAccount UInt64
  totalDistributed : UInt64

namespace RewardsSoFar

def addLeader (account : RewardAccount) (amount : UInt64) (rewards : RewardsSoFar) : RewardsSoFar :=
  { rewards with
    leaderDeltas := KeyedMap.upsert account 0 (saturatingAdd · amount) rewards.leaderDeltas
    totalDistributed := saturatingAdd rewards.totalDistributed amount }

def addMember (rewards : RewardsSoFar) (reward : StakeCredential × UInt64) : RewardsSoFar :=
  { rewards with
    rewardDeltas := KeyedMap.upsert reward.1 0 (saturatingAdd · reward.2) rewards.rewardDeltas
    totalDistributed := saturatingAdd rewards.totalDistributed reward.2 }

def addPool (rewards : RewardsSoFar) (pool : RewardAccount × PoolRewardBreakdown) : RewardsSoFar :=
  let led := if 0 < pool.2.leaderReward then rewards.addLeader pool.1 pool.2.leaderReward
    else rewards
  (KeyedMap.pairs pool.2.memberRewards).foldl addMember led

end RewardsSoFar

/-- The pools of the snapshot with their rewards. -/
def poolRewards (params : RewardParams) (go : StakeSnapshot)
    (performance : KeyedMap PoolKeyHash UnitInterval) :
    List (RewardAccount × PoolRewardBreakdown) :=
  let pot := computeEpochRewardPot params
  go.poolParams.entries.map fun entry =>
    (entry.2.rewardAccount, computePoolReward pot.rewardsPot params entry.1 go
      go.poolStakeDistribution ((performance.lookup entry.1).getD ⟨0, 1⟩))

def computeEpochRewards (params : RewardParams) (go : StakeSnapshot)
    (performance : KeyedMap PoolKeyHash UnitInterval) : EpochRewardDistribution :=
  let pot := computeEpochRewardPot params
  let rewards := (poolRewards params go performance).foldl RewardsSoFar.addPool ⟨∅, ∅, 0⟩
  { rewardDeltas := rewards.rewardDeltas
    leaderDeltas := rewards.leaderDeltas
    treasuryCut := pot.treasuryCut
    distributed := rewards.totalDistributed
    unclaimed := saturatingSub pot.rewardsPot rewards.totalDistributed
    deltaReserves := pot.deltaReserves }

/-! ## Performance -/

/-- Blocks made by everyone, added with wrap-around. -/
def totalBlocks (blocksMade : KeyedMap PoolKeyHash UInt64) : UInt64 :=
  (blocksMade.entries.map (·.2)).foldl (· + ·) 0

/-- At least 0.8, in 64-bit words that wrap. -/
def mostlyFederated (d : UnitInterval) : Bool :=
  0 < d.denominator && d.denominator * 8 ≤ d.numerator * 10

/-- The efficiency of an epoch: blocks made against blocks expected.  A fraction without a
denominator divides by zero. -/
def computeEta (d asc : UnitInterval) (slotsPerEpoch : UInt64)
    (blocksMade : KeyedMap PoolKeyHash UInt64) : Result UnitInterval :=
  if mostlyFederated d then .ok ⟨1, 1⟩
  else if slotsPerEpoch = 0 ∨ asc.denominator = 0 ∨ asc.numerator = 0 then .ok ⟨1, 1⟩
  else if d.denominator = 0 then .error .panicked
  else
    let expected := (saturatingSub d.denominator d.numerator).toNat * asc.numerator.toNat %
      2 ^ 128 * slotsPerEpoch.toNat % 2 ^ 128 / (d.denominator.toNat * asc.denominator.toNat)
    let blocks := totalBlocks blocksMade
    .ok (if expected = 0 ∨ expected ≤ blocks.toNat then ⟨1, 1⟩
      else ⟨blocks, .ofNat expected⟩)

/-- Bring a fraction into 64-bit words. -/
def scaleRatio (numerator denominator : Nat) : UnitInterval :=
  let limit := 2 ^ 64 - 1
  if limit < numerator ∨ limit < denominator then
    let scale := max ((numerator + limit - 1) / limit) ((denominator + limit - 1) / limit)
    ⟨.ofNat (max (numerator / scale) 1), .ofNat (max (denominator / scale) 1)⟩
  else ⟨.ofNat numerator, .ofNat denominator⟩

/-- Blocks made by a pool against its share of the stake. -/
def apparentPerformanceRatio (blocksProduced totalActiveStake poolStake blocks : UInt64) :
    Option UnitInterval :=
  if blocksProduced = 0 ∨ totalActiveStake = 0 ∨ poolStake = 0 ∨ blocks = 0 then none
  else
    let reduce (a b : Nat) : Nat × Nat := (a / Nat.gcd a b, b / Nat.gcd a b)
    let (n1, d2) := reduce blocksProduced.toNat blocks.toNat
    let (n2, d1) := reduce totalActiveStake.toNat poolStake.toNat
    let (n1, d1) := reduce n1 d1
    let (n2, d2) := reduce n2 d2
    let (numerator, denominator) := reduce (n1 * n2) (d1 * d2)
    some (scaleRatio numerator denominator)

/-- The performance of every pool that made blocks. -/
def derivePoolPerformance (blocksMade : KeyedMap PoolKeyHash UInt64) (go : StakeSnapshot)
    (d : UnitInterval) : KeyedMap PoolKeyHash UnitInterval :=
  if mostlyFederated d then
    blocksMade.entries.foldl (fun performance entry => performance.insert entry.1 ⟨1, 1⟩) ∅
  else
    let distribution := go.poolStakeDistribution
    let blocks := totalBlocks blocksMade
    if distribution.totalActiveStake = 0 ∨ blocks = 0 then ∅
    else
      blocksMade.entries.foldl (fun performance entry =>
        match apparentPerformanceRatio entry.2 distribution.totalActiveStake
            (distribution.poolStake entry.1) blocks with
        | some ratio => performance.insert entry.1 ratio
        | none => performance) ∅

end Yggdrasil.Ledger.Rewards
