import Yggdrasil.Ledger.Rewards.WideDivision
import Yggdrasil.Ledger.Rewards.EpochRewards

/-!
# The reward of a pool that made all its blocks

`max_pool_reward` against the exact formula.  Every product and sum has room in 512 bits; the
division that follows may lose bits of its remainder.  The reward is never too large, in particular
never more than the share of the stake, and exact if and only if no bit is lost.
-/

namespace Yggdrasil.Ledger.Rewards

theorem checkedMul128_eq_some {a b product : Nat} (h : checkedMul128 a b = some product) :
    product = a * b := by
  unfold checkedMul128 at h
  split at h
  · exact (Option.some.inj h).symm
  · cases h

theorem toNat_min (a b : UInt64) : (min a b).toNat = min a.toNat b.toNat := by
  change (if a ≤ b then a else b).toNat = _
  simp only [UInt64.le_iff_toNat_le]
  split <;> omega

theorem toNat_max_one (a : UInt64) : (max a 1).toNat = max a.toNat 1 := by
  change (if a ≤ 1 then 1 else a).toNat = _
  simp only [UInt64.le_iff_toNat_le]
  split
  · exact (max_eq_right ‹_›).symm
  · omega

theorem toNat_max_one_pos (a : UInt64) : 0 < (max a 1).toNat := by
  rw [toNat_max_one]
  omega

/-! ## Capped shares -/

theorem uncappedShare_spec {part total k : Nat} (htotal : 0 < total) (hk : 0 < k)
    (htotalLt : total < 2 ^ 64) :
    let share := if (checkedMul128 part k).any (· ≤ total) then (part, total) else (1, k)
    (share.1 / share.2 : ℚ) = min (part / total : ℚ) (1 / k) := by
  have htotalPos : (0 : ℚ) < total := Nat.cast_pos.mpr htotal
  have hkPos : (0 : ℚ) < k := Nat.cast_pos.mpr hk
  split
  case isTrue hsmall =>
    obtain ⟨product, hproduct, hle⟩ := (Option.any_eq_true _ _).mp hsmall
    rw [checkedMul128_eq_some hproduct, decide_eq_true_eq] at hle
    refine (min_eq_left ?_).symm
    rw [div_le_div_iff₀ htotalPos hkPos, one_mul]
    exact_mod_cast hle
  case isFalse hlarge =>
    refine (Eq.trans ?_ (min_eq_right ?_).symm)
    · norm_num
    · have hless : total < part * k := by
        by_contra hle
        refine hlarge ((Option.any_eq_true _ _).mpr ⟨part * k, ?_, ?_⟩)
        · unfold checkedMul128
          rw [if_pos (by omega)]
        · rw [decide_eq_true_eq]
          omega
      rw [div_le_div_iff₀ hkPos htotalPos, one_mul]
      exact_mod_cast hless.le

/-- A capped share is the smaller of the share and `1 / k`. -/
theorem cappedShare_spec {part total k : Nat} (htotal : 0 < total) (hk : 0 < k)
    (htotalLt : total < 2 ^ 64) (hkLt : k < 2 ^ 64) :
    ((cappedShare part total k).1 / (cappedShare part total k).2 : ℚ) =
        min (part / total : ℚ) (1 / k) ∧
      (cappedShare part total k).1 * k ≤ (cappedShare part total k).2 ∧
      0 < (cappedShare part total k).2 ∧ (cappedShare part total k).2 < 2 ^ 64 := by
  have hshare := @uncappedShare_spec part total k htotal hk htotalLt
  have hkPos : (0 : ℚ) < k := Nat.cast_pos.mpr hk
  unfold cappedShare
  dsimp only at hshare ⊢
  generalize hpair : (if (checkedMul128 part k).any (· ≤ total) then (part, total) else (1, k)) =
    share at hshare ⊢
  have hden : 0 < share.2 ∧ share.2 < 2 ^ 64 := by
    rw [← hpair]
    split
    · exact ⟨htotal, htotalLt⟩
    · exact ⟨hk, hkLt⟩
  have hgcd : 0 < Nat.gcd share.1 share.2 := Nat.gcd_pos_of_pos_right _ hden.1
  have hpos : 0 < share.2 / Nat.gcd share.1 share.2 :=
    Nat.div_pos (Nat.le_of_dvd hden.1 (Nat.gcd_dvd_right _ _)) hgcd
  have hcast : (Nat.gcd share.1 share.2 : ℚ) ≠ 0 := Nat.cast_ne_zero.mpr hgcd.ne'
  have hratio : ((share.1 / Nat.gcd share.1 share.2 : Nat) /
      (share.2 / Nat.gcd share.1 share.2 : Nat) : ℚ) = min (part / total : ℚ) (1 / k) := by
    rw [Nat.cast_div (Nat.gcd_dvd_left _ _) hcast, Nat.cast_div (Nat.gcd_dvd_right _ _) hcast,
      div_div_div_cancel_right₀ hcast, hshare]
  rw [max_eq_left hgcd]
  refine ⟨hratio, ?_, hpos, (Nat.div_le_self _ _).trans_lt hden.2⟩
  have hcap := hratio.le.trans (min_le_right _ _)
  rw [div_le_div_iff₀ (Nat.cast_pos.mpr hpos) hkPos, one_mul] at hcap
  exact_mod_cast hcap

/-- The two terms of the numerator against the denominator's factors, as naturals. -/
theorem poolTerms_le {sigNum sigDen sNum sDen a0Num a0Den k diff : Nat}
    (hcap : sNum * k ≤ sDen) (hdiff : diff ≤ sigNum * sDen) :
    a0Den * sigNum * sDen * (sigDen * sDen) + sNum * a0Num * k * diff * sigDen ≤
      (a0Den + a0Num) * sigNum * sDen * (sigDen * sDen) := by
  have hterm := Nat.mul_le_mul hcap hdiff
  calc a0Den * sigNum * sDen * (sigDen * sDen) + sNum * a0Num * k * diff * sigDen
      = a0Den * sigNum * sDen * (sigDen * sDen) + a0Num * sigDen * (sNum * k * diff) := by ring
    _ ≤ a0Den * sigNum * sDen * (sigDen * sDen) + a0Num * sigDen * (sDen * (sigNum * sDen)) :=
        Nat.add_le_add_left (Nat.mul_le_mul_left _ hterm) _
    _ = (a0Den + a0Num) * sigNum * sDen * (sigDen * sDen) := by ring

theorem toNat_word {n : Nat} (hn : n < 2 ^ 128) : (BitVec.ofNat 128 n).toNat = n := by
  rw [BitVec.toNat_ofNat, Nat.mod_eq_of_lt hn]

/-- The share of a pool and the share of its pledge, the capping fraction and the pot, all of
them 64-bit numbers. -/
structure PoolFractions where
  sigNum : Nat
  sigDen : Nat
  sNum : Nat
  sDen : Nat
  a0Num : Nat
  a0Den : Nat
  k : Nat
  pot : Nat
  sigNum_lt : sigNum < 2 ^ 64
  sigDen_lt : sigDen < 2 ^ 64
  sNum_lt : sNum < 2 ^ 64
  sDen_lt : sDen < 2 ^ 64
  a0Num_lt : a0Num < 2 ^ 64
  a0Den_lt : a0Den < 2 ^ 64
  k_lt : k < 2 ^ 64
  pot_lt : pot < 2 ^ 64
  sigDen_pos : 0 < sigDen
  sDen_pos : 0 < sDen
  a0Den_pos : 0 < a0Den
  pledge_capped : sNum * k ≤ sDen

namespace PoolFractions

variable (f : PoolFractions)

theorem mul_lt {a b : Nat} (ha : a < 2 ^ 64) (hb : b < 2 ^ 64) : a * b < 2 ^ 128 := by
  have hlt := Nat.mul_lt_mul'' ha hb
  omega

theorem value_product {a b : Nat} (ha : a < 2 ^ 64) (hb : b < 2 ^ 64) :
    (U256.wideningMul (.ofNat 128 a) (.ofNat 128 b)).value = a * b := by
  rw [U256.value_wideningMul, toNat_word (by omega), toNat_word (by omega)]

theorem value_product_word {a b c : Nat} (ha : a < 2 ^ 64) (hb : b < 2 ^ 64) (hc : c < 2 ^ 65) :
    ((U256.wideningMul (.ofNat 128 a) (.ofNat 128 b)).mulU128 (.ofNat 128 c)).value =
      a * b * c := by
  have hlt := Nat.mul_lt_mul'' (mul_lt ha hb) hc
  rw [U256.value_mulU128, value_product ha hb, toNat_word (by omega)]
  rw [value_product ha hb, toNat_word (by omega)]
  omega

/-- The denominator of the formula. -/
def den : U512 :=
  let diffDen := U256.wideningMul (.ofNat 128 f.sigDen) (.ofNat 128 f.sDen)
  U512.mulU256 (diffDen.mulU128 (.ofNat 128 (f.a0Den + f.a0Num))) diffDen

/-- The first term of the numerator. -/
def term1 : U512 :=
  U512.mulU256 ((U256.wideningMul (.ofNat 128 f.a0Den) (.ofNat 128 f.sigNum)).mulU128
    (.ofNat 128 f.sDen)) (U256.wideningMul (.ofNat 128 f.sigDen) (.ofNat 128 f.sDen))

/-- The second term of the numerator, without its sign. -/
def term2 (diff : U256) : U512 :=
  (U512.mulU256 ((U256.wideningMul (.ofNat 128 f.sNum) (.ofNat 128 f.a0Num)).mulU128
    (.ofNat 128 f.k)) diff).mulU128 (.ofNat 128 f.sigDen)

theorem value_den :
    f.den.value = f.sigDen * f.sDen * (f.a0Den + f.a0Num) * (f.sigDen * f.sDen) := by
  have hnum := f.a0Num_lt
  have hden := f.a0Den_lt
  unfold den
  rw [U512.value_mulU256, value_product_word f.sigDen_lt f.sDen_lt (by omega),
    value_product f.sigDen_lt f.sDen_lt]

theorem den_pos : 0 < f.den.value := by
  rw [value_den]
  exact Nat.mul_pos (Nat.mul_pos (Nat.mul_pos f.sigDen_pos f.sDen_pos)
    (Nat.add_pos_left f.a0Den_pos _)) (Nat.mul_pos f.sigDen_pos f.sDen_pos)

theorem value_term1 : f.term1.value = f.a0Den * f.sigNum * f.sDen * (f.sigDen * f.sDen) := by
  have hword := f.sDen_lt
  unfold term1
  rw [U512.value_mulU256, value_product_word f.a0Den_lt f.sigNum_lt (by omega),
    value_product f.sigDen_lt f.sDen_lt]

theorem value_term2 (diff : U256) (hdiff : diff.value < 2 ^ 128) :
    (f.term2 diff).value = f.sNum * f.a0Num * f.k * diff.value * f.sigDen ∧
      (f.term2 diff).value < 2 ^ 384 := by
  have hword := f.k_lt
  have hden := f.sigDen_lt
  have hlt := Nat.mul_lt_mul'' (Nat.mul_lt_mul'' (Nat.mul_lt_mul'' (mul_lt f.sNum_lt f.a0Num_lt)
    hword) hdiff) hden
  have hproduct : (U512.mulU256 ((U256.wideningMul (.ofNat 128 f.sNum)
      (.ofNat 128 f.a0Num)).mulU128 (.ofNat 128 f.k)) diff).value =
        f.sNum * f.a0Num * f.k * diff.value := by
    rw [U512.value_mulU256, value_product_word f.sNum_lt f.a0Num_lt (by omega)]
  have hexact : (f.term2 diff).value = f.sNum * f.a0Num * f.k * diff.value * f.sigDen := by
    rw [term2, U512.value_mulU128, hproduct, toNat_word (by omega)]
    rw [hproduct, toNat_word (by omega)]
    omega
  exact ⟨hexact, by omega⟩

/-- The numerator of the formula without the pot; it is not below zero. -/
def numerator : Nat :=
  let product := f.sigNum * f.sDen
  let offset := f.sNum * (f.sigDen - f.k * f.sigNum)
  let base := f.a0Den * f.sigNum * f.sDen * (f.sigDen * f.sDen)
  let extra := fun diff => f.sNum * f.a0Num * f.k * diff * f.sigDen
  if product < offset then base - extra (offset - product) else base + extra (product - offset)

/-- The formula is at most the share of the stake. -/
theorem numerator_mul_le : f.numerator * f.sigDen ≤ f.sigNum * f.den.value := by
  have hterms : f.numerator ≤ (f.a0Den + f.a0Num) * f.sigNum * f.sDen * (f.sigDen * f.sDen) := by
    unfold numerator
    dsimp only
    split
    · refine (Nat.sub_le _ _).trans ?_
      gcongr
      exact Nat.le_add_right _ _
    · exact poolTerms_le f.pledge_capped (Nat.sub_le _ _)
  calc f.numerator * f.sigDen
      ≤ (f.a0Den + f.a0Num) * f.sigNum * f.sDen * (f.sigDen * f.sDen) * f.sigDen :=
        Nat.mul_le_mul_right _ hterms
    _ = f.sigNum * f.den.value := by
        rw [value_den]
        ring

theorem numerator_le_den (hsig : f.sigNum ≤ f.sigDen) : f.numerator ≤ f.den.value := by
  refine Nat.le_of_mul_le_mul_right (f.numerator_mul_le.trans ?_) f.sigDen_pos
  rw [mul_comm]
  exact Nat.mul_le_mul_left _ hsig

theorem fraction_lt (hsig : f.sigNum ≤ f.sigDen) : f.numerator * f.pot / f.den.value < 2 ^ 64 :=
  (Nat.div_le_of_le_mul (Nat.mul_le_mul_right _ (f.numerator_le_den hsig))).trans_lt f.pot_lt

/-- The sum or the difference of the two terms. -/
theorem value_inner {product offset : U256} (hproduct : product.value = f.sigNum * f.sDen)
    (hoffset : offset.value = f.sNum * (f.sigDen - f.k * f.sigNum)) :
    (product.value < offset.value →
        f.term1.value - (f.term2 (offset.checkedSub product)).value = f.numerator) ∧
      (offset.value ≤ product.value →
        (f.term1.add (f.term2 (product.checkedSub offset))).value = f.numerator) := by
  have hbase := f.value_term1
  have hbaseLt : f.term1.value < 2 ^ 320 := by
    have hlt := Nat.mul_lt_mul'' (Nat.mul_lt_mul'' (mul_lt f.a0Den_lt f.sigNum_lt) f.sDen_lt)
      (mul_lt f.sigDen_lt f.sDen_lt)
    omega
  have hproductLt := mul_lt f.sigNum_lt f.sDen_lt
  have hoffsetLt := mul_lt f.sNum_lt
    (Nat.lt_of_le_of_lt (Nat.sub_le f.sigDen (f.k * f.sigNum)) f.sigDen_lt)
  rw [← hproduct] at hproductLt
  rw [← hoffset] at hoffsetLt
  unfold numerator
  dsimp only
  rw [← hproduct, ← hoffset, ← hbase]
  refine ⟨fun hless => ?_, fun hle => ?_⟩
  · have hdiff := U256.value_checkedSub hless.le
    obtain ⟨hterm, -⟩ := f.value_term2 (offset.checkedSub product) (by omega)
    rw [if_pos hless, ← hdiff, ← hterm]
  · have hdiff := U256.value_checkedSub hle
    obtain ⟨hterm, hlt⟩ := f.value_term2 (product.checkedSub offset) (by omega)
    rw [if_neg (by omega), ← hdiff, ← hterm, U512.value_add]
    exact Nat.mod_eq_of_lt (by omega)

theorem quotient_spec (hsig : f.sigNum ≤ f.sigDen) {inner : U512}
    (hinner : inner.value = f.numerator) :
    let quotient : UInt64 :=
      .ofNat (min (u512DivU512 (inner.mulU128 (.ofNat 128 f.pot)) f.den).toNat (2 ^ 64 - 1))
    quotient.toNat ≤ f.numerator * f.pot / f.den.value ∧
      (quotient.toNat = f.numerator * f.pot / f.den.value ↔
        ExactDivision (f.numerator * f.pot) f.den.value) := by
  have hpot : (BitVec.ofNat 128 f.pot).toNat = f.pot := toNat_word (f.pot_lt.trans (by decide))
  have ha0 : f.a0Den + f.a0Num < 2 ^ 65 := by
    have hnum := f.a0Num_lt
    have hden := f.a0Den_lt
    omega
  have hdenLt : f.den.value < 2 ^ (128 + 65 + 128) := by
    rw [value_den, pow_add, pow_add]
    exact Nat.mul_lt_mul'' (Nat.mul_lt_mul'' (mul_lt f.sigDen_lt f.sDen_lt) ha0)
      (mul_lt f.sigDen_lt f.sDen_lt)
  have hle := f.numerator_le_den hsig
  have hfits : f.numerator * f.pot < 2 ^ 512 := by
    refine (Nat.mul_lt_mul'' (hle.trans_lt hdenLt) f.pot_lt).trans_le ?_
    rw [← pow_add]
    exact pow_le_pow_right₀ (by decide) (by decide)
  have hproduct : (inner.mulU128 (.ofNat 128 f.pot)).value = f.numerator * f.pot := by
    rw [U512.value_mulU128, hinner, hpot]
    rw [hinner, hpot]
    exact hfits
  have hsmall := f.fraction_lt hsig
  have hspec := u512DivU512_spec (inner.mulU128 (.ofNat 128 f.pot)) f.den_pos
    (hdenLt.le.trans (pow_le_pow_right₀ (by decide) (by decide))) (by rw [hproduct]; exact hsmall)
  rw [hproduct] at hspec
  have hword := hspec.1.trans_lt hsmall
  intro quotient
  have hquotient : quotient.toNat =
      (u512DivU512 (inner.mulU128 (.ofNat 128 f.pot)) f.den).toNat := by
    rw [UInt64.toNat_ofNat', min_eq_left (Nat.le_sub_one_of_lt hword), Nat.mod_eq_of_lt hword]
  rw [hquotient]
  exact hspec

end PoolFractions

/-- The numbers that the formula is computed from. -/
structure PoolFractions.Describes (f : PoolFractions) (rewardsPot nOpt : UInt64) (a0 : UnitInterval)
    (poolStake pledge totalStake : UInt64) : Prop where
  sig : cappedShare poolStake.toNat totalStake.toNat nOpt.toNat = (f.sigNum, f.sigDen)
  pledge : cappedShare pledge.toNat totalStake.toNat nOpt.toNat = (f.sNum, f.sDen)
  a0Num : a0.numerator.toNat = f.a0Num
  a0Den : (max a0.denominator 1).toNat = f.a0Den
  k : nOpt.toNat = f.k
  pot : rewardsPot.toNat = f.pot

section

variable {rewardsPot nOpt : UInt64} {a0 : UnitInterval} {poolStake pledge totalStake : UInt64}

theorem exists_describes (htotal : 0 < totalStake.toNat) (hk : 0 < nOpt.toNat) :
    ∃ f : PoolFractions, f.Describes rewardsPot nOpt a0 poolStake pledge totalStake := by
  obtain ⟨-, hsigCap, hsigDen, hsigLt⟩ :=
    @cappedShare_spec poolStake.toNat _ _ htotal hk totalStake.toNat_lt nOpt.toNat_lt
  obtain ⟨-, hsCap, hsDen, hsLt⟩ :=
    @cappedShare_spec pledge.toNat _ _ htotal hk totalStake.toNat_lt nOpt.toNat_lt
  have hsigNum := Nat.le_mul_of_pos_right
    (cappedShare poolStake.toNat totalStake.toNat nOpt.toNat).1 hk
  have hsNum := Nat.le_mul_of_pos_right
    (cappedShare pledge.toNat totalStake.toNat nOpt.toNat).1 hk
  exact ⟨{
    sigNum := _, sigDen := _, sNum := _, sDen := _
    a0Num := a0.numerator.toNat, a0Den := (max a0.denominator 1).toNat, k := nOpt.toNat
    pot := rewardsPot.toNat
    sigNum_lt := (hsigNum.trans hsigCap).trans_lt hsigLt
    sigDen_lt := hsigLt
    sNum_lt := (hsNum.trans hsCap).trans_lt hsLt
    sDen_lt := hsLt
    a0Num_lt := a0.numerator.toNat_lt
    a0Den_lt := (max a0.denominator 1).toNat_lt
    k_lt := nOpt.toNat_lt
    pot_lt := rewardsPot.toNat_lt
    sigDen_pos := hsigDen
    sDen_pos := hsDen
    a0Den_pos := toNat_max_one_pos _
    pledge_capped := hsCap }, ⟨rfl, rfl, rfl, rfl, rfl, rfl⟩⟩

theorem PoolFractions.Describes.capped {f : PoolFractions}
    (hf : f.Describes rewardsPot nOpt a0 poolStake pledge totalStake)
    (htotal : 0 < totalStake.toNat) (hk : 0 < nOpt.toNat) :
    f.k * f.sigNum ≤ f.sigDen ∧ f.sigNum ≤ f.sigDen := by
  obtain ⟨-, hcap, -, -⟩ :=
    @cappedShare_spec poolStake.toNat _ _ htotal hk totalStake.toNat_lt nOpt.toNat_lt
  rw [hf.sig, hf.k] at hcap
  rw [hf.k] at hk
  exact ⟨Nat.mul_comm _ _ ▸ hcap, (Nat.le_mul_of_pos_right _ hk).trans hcap⟩

theorem exactDivision_zero (den : Nat) : ExactDivision 0 den :=
  fun _ hlarge => absurd hlarge (by decide)

theorem maxPoolReward_spec (htotal : 0 < totalStake.toNat) (hk : 0 < nOpt.toNat)
    {f : PoolFractions} (hf : f.Describes rewardsPot nOpt a0 poolStake pledge totalStake) :
    (maxPoolReward rewardsPot nOpt a0 poolStake pledge totalStake).toNat ≤
        f.numerator * f.pot / f.den.value ∧
      ((maxPoolReward rewardsPot nOpt a0 poolStake pledge totalStake).toNat =
          f.numerator * f.pot / f.den.value ↔
        ExactDivision (f.numerator * f.pot) f.den.value) := by
  have hsig := (hf.capped htotal hk).2
  unfold maxPoolReward
  split
  case isTrue hnone =>
    have hzero : f.numerator * f.pot = 0 := by
      rcases hnone with rfl | rfl | rfl | rfl
      · exact absurd htotal (lt_irrefl 0)
      · exact absurd hk (lt_irrefl 0)
      · rw [← hf.pot]
        rfl
      · have hsigNum : f.sigNum = 0 := by
          have hfirst := congrArg Prod.fst hf.sig
          simp only [cappedShare, checkedMul128] at hfirst
          simp at hfirst
          exact hfirst.symm
        simp [PoolFractions.numerator, hsigNum]
    rw [hzero, Nat.zero_div]
    exact ⟨le_rfl, iff_of_true rfl (exactDivision_zero _)⟩
  case isFalse _ =>
    have hproduct := PoolFractions.value_product f.sigNum_lt f.sDen_lt
    have hoffset : (U256.wideningMul (.ofNat 128 f.sNum)
        (.ofNat 128 (f.sigDen - saturatingMul128 f.k f.sigNum))).value =
        f.sNum * (f.sigDen - f.k * f.sigNum) := by
      have hlt := PoolFractions.mul_lt f.k_lt f.sigNum_lt
      rw [saturatingMul128, min_eq_left (by omega), PoolFractions.value_product f.sNum_lt
        (Nat.lt_of_le_of_lt (Nat.sub_le _ _) f.sigDen_lt)]
    obtain ⟨hnegative, hpositive⟩ := f.value_inner hproduct hoffset
    dsimp only
    rw [hf.sig, hf.pledge, hf.a0Num, hf.a0Den, hf.k, hf.pot]
    generalize U256.wideningMul (.ofNat 128 f.sigNum) (.ofNat 128 f.sDen) = product at *
    generalize U256.wideningMul (.ofNat 128 f.sNum)
      (.ofNat 128 (f.sigDen - saturatingMul128 f.k f.sigNum)) = offset at *
    cases hless : product.lt offset with
    | true =>
      rw [U256.lt_iff] at hless
      simp only [Bool.true_and, if_true]
      have hinner := hnegative hless
      have hnone : (f.term1.lt (f.term2 (offset.checkedSub product)) ||
          decide (f.term1 = f.term2 (offset.checkedSub product))) = true ↔
            f.term1.value ≤ (f.term2 (offset.checkedSub product)).value := by
        rw [Bool.or_eq_true, U512.lt_iff, decide_eq_true_eq, Nat.le_iff_lt_or_eq]
        exact or_congr_right ⟨congrArg U512.value, U512.value_inj⟩
      split
      case isTrue hsmall =>
        rw [← hinner, Nat.sub_eq_zero_of_le (hnone.mp hsmall), Nat.zero_mul, Nat.zero_div]
        exact ⟨le_rfl, iff_of_true rfl (exactDivision_zero _)⟩
      case isFalse hmore =>
        have hle := (Nat.lt_of_not_le fun h => hmore (hnone.mpr h)).le
        exact f.quotient_spec hsig ((U512.value_sub hle).trans hinner)
    | false =>
      rw [← Bool.not_eq_true, U256.lt_iff, not_lt] at hless
      exact f.quotient_spec hsig (hpositive hless)

end

/-- **A pool that made all its blocks gets at most its share of the stake.** -/
theorem maxPoolReward_mul_le (rewardsPot nOpt : UInt64) (a0 : UnitInterval)
    (poolStake pledge totalStake : UInt64) :
    (maxPoolReward rewardsPot nOpt a0 poolStake pledge totalStake).toNat * totalStake.toNat ≤
      rewardsPot.toNat * poolStake.toNat := by
  by_cases hnone : totalStake = 0 ∨ nOpt = 0
  · have hzero : maxPoolReward rewardsPot nOpt a0 poolStake pledge totalStake = 0 :=
      if_pos (hnone.imp_right .inl)
    rw [hzero]
    exact Nat.zero_mul _ ▸ Nat.zero_le _
  · rw [not_or, ← UInt64.toNat_inj, ← UInt64.toNat_inj] at hnone
    have htotal := pos_of_ne_zero hnone.1
    have hk := pos_of_ne_zero hnone.2
    obtain ⟨f, hf⟩ := @exists_describes rewardsPot nOpt a0 poolStake pledge totalStake htotal hk
    obtain ⟨hshare, -, -, -⟩ :=
      @cappedShare_spec poolStake.toNat _ _ htotal hk totalStake.toNat_lt nOpt.toNat_lt
    have hbelow : f.sigNum * totalStake.toNat ≤ poolStake.toNat * f.sigDen := by
      rw [hf.sig] at hshare
      have hle := hshare.le.trans (min_le_left _ _)
      rw [div_le_div_iff₀ (Nat.cast_pos.mpr f.sigDen_pos) (Nat.cast_pos.mpr htotal)] at hle
      exact_mod_cast hle
    have hquotient := Nat.mul_le_of_le_div _ _ _ (maxPoolReward_spec htotal hk hf).1
    generalize (maxPoolReward rewardsPot nOpt a0 poolStake pledge totalStake).toNat = q at *
    refine Nat.le_of_mul_le_mul_right ?_ (Nat.mul_pos f.den_pos f.sigDen_pos)
    calc q * totalStake.toNat * (f.den.value * f.sigDen)
        = q * f.den.value * (totalStake.toNat * f.sigDen) := by ring
      _ ≤ f.numerator * f.pot * (totalStake.toNat * f.sigDen) := Nat.mul_le_mul_right _ hquotient
      _ = f.numerator * f.sigDen * (f.pot * totalStake.toNat) := by ring
      _ ≤ f.sigNum * f.den.value * (f.pot * totalStake.toNat) :=
          Nat.mul_le_mul_right _ f.numerator_mul_le
      _ = f.sigNum * totalStake.toNat * (f.pot * f.den.value) := by ring
      _ ≤ poolStake.toNat * f.sigDen * (f.pot * f.den.value) := Nat.mul_le_mul_right _ hbelow
      _ = rewardsPot.toNat * poolStake.toNat * (f.den.value * f.sigDen) := by
          rw [hf.pot]
          ring

/-! ## The exact formula -/

/-- The formula for the reward, rounded down. -/
def exactMaxPool (pot nOpt a0 sigma pledge : ℚ) : Nat :=
  let z := 1 / nOpt
  let s := min sigma z
  let p := min pledge z
  ⌊pot / (1 + a0) * (s + p * a0 * (s - p * (z - s) / z) / z)⌋₊

theorem cast_sub_eq_max (a b : Nat) : ((a - b : Nat) : ℚ) = max 0 ((a : ℚ) - b) := by
  rcases le_total b a with hle | hle
  · rw [Nat.cast_sub hle, max_eq_right (sub_nonneg.mpr (Nat.cast_le.mpr hle))]
  · rw [Nat.sub_eq_zero_of_le hle, max_eq_left (sub_nonpos.mpr (Nat.cast_le.mpr hle)), Nat.cast_zero]

/-- The numerator with its sign. -/
def PoolFractions.signed (f : PoolFractions) : ℚ :=
  f.a0Den * f.sigNum * f.sDen * (f.sigDen * f.sDen) +
    f.sNum * f.a0Num * f.k * (f.sigNum * f.sDen - f.sNum * (f.sigDen - f.k * f.sigNum)) * f.sigDen

/-- The numerator is the one of the formula, or zero. -/
theorem PoolFractions.numerator_cast (f : PoolFractions) (hcap : f.k * f.sigNum ≤ f.sigDen) :
    (f.numerator : ℚ) = max 0 f.signed := by
  have hoffset : ((f.sigDen - f.k * f.sigNum : Nat) : ℚ) = f.sigDen - f.k * f.sigNum := by
    rw [Nat.cast_sub hcap, Nat.cast_mul]
  unfold numerator signed
  dsimp only
  split
  case isTrue hless =>
    rw [cast_sub_eq_max]
    push_cast [Nat.cast_sub hless.le]
    rw [hoffset]
    congr 1
    ring
  case isFalse hmore =>
    have hle := Nat.le_of_not_lt hmore
    have hnonneg : (0 : ℚ) ≤ f.sigNum * f.sDen - f.sNum * (f.sigDen - f.k * f.sigNum) := by
      rw [sub_nonneg]
      exact_mod_cast hle
    rw [max_eq_right (by positivity)]
    push_cast [Nat.cast_sub hle]
    rw [hoffset]

theorem exactMaxPool_eq {rewardsPot nOpt : UInt64} {a0 : UnitInterval}
    {poolStake pledge totalStake : UInt64} (htotal : 0 < totalStake.toNat) (hk : 0 < nOpt.toNat)
    {f : PoolFractions} (hf : f.Describes rewardsPot nOpt a0 poolStake pledge totalStake) :
    exactMaxPool rewardsPot.toNat nOpt.toNat (a0.numerator.toNat / (max a0.denominator 1).toNat)
        (poolStake.toNat / totalStake.toNat) (pledge.toNat / totalStake.toNat) =
      f.numerator * f.pot / f.den.value := by
  have hcap := (hf.capped htotal hk).1
  obtain ⟨hsig, -, -, -⟩ :=
    @cappedShare_spec poolStake.toNat _ _ htotal hk totalStake.toNat_lt nOpt.toNat_lt
  obtain ⟨hpledge, -, -, -⟩ :=
    @cappedShare_spec pledge.toNat _ _ htotal hk totalStake.toNat_lt nOpt.toNat_lt
  rw [hf.sig, hf.k] at hsig
  rw [hf.pledge, hf.k] at hpledge
  rw [hf.k] at hk
  have hsigPos : (0 : ℚ) < f.sigDen := Nat.cast_pos.mpr f.sigDen_pos
  have hsPos : (0 : ℚ) < f.sDen := Nat.cast_pos.mpr f.sDen_pos
  have ha0Pos : (0 : ℚ) < f.a0Den := Nat.cast_pos.mpr f.a0Den_pos
  have hformula : (f.pot : ℚ) / (1 + f.a0Num / f.a0Den) * (f.sigNum / f.sigDen +
      f.sNum / f.sDen * (f.a0Num / f.a0Den) * (f.sigNum / f.sigDen -
        f.sNum / f.sDen * (1 / f.k - f.sigNum / f.sigDen) / (1 / f.k)) / (1 / f.k)) =
      f.signed * f.pot / f.den.value := by
    rw [PoolFractions.signed, f.value_den]
    push_cast
    field_simp
  unfold exactMaxPool
  dsimp only at hsig hpledge ⊢
  rw [hf.k, hf.a0Num, hf.a0Den, hf.pot, ← hsig, ← hpledge, hformula,
    ← Nat.floor_div_eq_div (K := ℚ), Nat.cast_mul, f.numerator_cast hcap]
  rcases le_total 0 f.signed with hpos | hneg
  · rw [max_eq_right hpos]
  · rw [max_eq_left hneg, zero_mul, zero_div, Nat.floor_zero, Nat.floor_of_nonpos]
    exact div_nonpos_of_nonpos_of_nonneg
      (mul_nonpos_of_nonpos_of_nonneg hneg (Nat.cast_nonneg _)) (Nat.cast_nonneg _)

/-- **The reward of a pool that made all its blocks is exact if and only if the long division by 256
bits keeps all bits of its remainders.** -/
theorem maxPoolReward_exact_iff (rewardsPot nOpt : UInt64) (a0 : UnitInterval)
    (poolStake pledge totalStake : UInt64) (hk : 0 < nOpt) (ha0 : 0 < a0.denominator) :
    (maxPoolReward rewardsPot nOpt a0 poolStake pledge totalStake).toNat =
        min (exactMaxPool rewardsPot.toNat nOpt.toNat (a0.numerator.toNat / a0.denominator.toNat)
          (poolStake.toNat / totalStake.toNat) (pledge.toNat / totalStake.toNat)) (2 ^ 64 - 1) ↔
      (0 < totalStake → ∀ f : PoolFractions,
        f.Describes rewardsPot nOpt a0 poolStake pledge totalStake →
          ExactDivision (f.numerator * f.pot) f.den.value) := by
  rw [UInt64.lt_iff_toNat_lt] at hk ha0
  have hden : (max a0.denominator 1).toNat = a0.denominator.toNat := by
    rw [toNat_max_one]
    omega
  rw [← hden]
  by_cases htotal : 0 < totalStake.toNat
  · have hvalue : ∀ f : PoolFractions,
        f.Describes rewardsPot nOpt a0 poolStake pledge totalStake →
        min (exactMaxPool rewardsPot.toNat nOpt.toNat
          (a0.numerator.toNat / (max a0.denominator 1).toNat) (poolStake.toNat / totalStake.toNat)
          (pledge.toNat / totalStake.toNat)) (2 ^ 64 - 1) = f.numerator * f.pot / f.den.value := by
      intro f hf
      rw [exactMaxPool_eq htotal hk hf]
      exact min_eq_left (Nat.le_sub_one_of_lt (f.fraction_lt (hf.capped htotal hk).2))
    constructor
    · intro hexact _ f hf
      exact (maxPoolReward_spec htotal hk hf).2.mp (hexact.trans (hvalue f hf))
    · intro hdivision
      obtain ⟨f, hf⟩ := @exists_describes rewardsPot nOpt a0 poolStake pledge totalStake htotal hk
      exact ((maxPoolReward_spec htotal hk hf).2.mpr (hdivision htotal f hf)).trans
        (hvalue f hf).symm
  · -- without stake both sides are zero
    have hzero : totalStake = 0 := UInt64.toNat_inj.mp (Nat.eq_zero_of_not_pos htotal)
    refine iff_of_true ?_ fun h => absurd h htotal
    rw [maxPoolReward, if_pos (.inl hzero), hzero]
    simp [exactMaxPool]

/-- A third of a small stake. -/
theorem modestMaxPool_exact :
    maxPoolReward 1000 1 ⟨3, 10⟩ 10 1 30 = 258 ∧ (0 < (30 : UInt64) → ∀ f : PoolFractions,
      f.Describes 1000 1 ⟨3, 10⟩ 10 1 30 → ExactDivision (f.numerator * f.pot) f.den.value) := by
  have hreward : maxPoolReward 1000 1 ⟨3, 10⟩ 10 1 30 = 258 := by decide +kernel
  refine ⟨hreward, (maxPoolReward_exact_iff 1000 1 ⟨3, 10⟩ 10 1 30 (by decide) (by decide)).mp ?_⟩
  rw [exactMaxPool]
  simp only [UInt64.reduceToNat]
  rw [(Nat.floor_eq_iff (by norm_num)).mpr (show ((258 : Nat) : ℚ) ≤ _ ∧ _ by norm_num)]
  rfl

/-- **A pool with nearly all of `2 ^ 63 + 1` lovelace gets nothing of the pot.**  The divisor
`13 * (2 ^ 63 + 1) ^ 4` has 256 bits, and the doubled remainders lose the 257th. -/
theorem largeMaxPool_lost :
    maxPoolReward (2 ^ 40) 1 ⟨3, 10⟩ (2 ^ 63) 1 (2 ^ 63 + 1) = 0 ∧
      exactMaxPool (2 ^ 40) 1 (3 / 10) (2 ^ 63 / (2 ^ 63 + 1)) (1 / (2 ^ 63 + 1)) =
        845778175212 := by
  refine ⟨by decide +kernel, ?_⟩
  unfold exactMaxPool
  rw [Nat.floor_eq_iff] <;> norm_num

end Yggdrasil.Ledger.Rewards
