import Yggdrasil.Consensus.Praos.Common

/-!
# The slot-leader check

`check_leader_value` of `crates/consensus/src/praos.rs`.  The Blake2b-256 hash of the Praos range
extension is a parameter.  The check should decide `target > q * exp (-x)` for the real
exponential; `decidesThreshold_iff` says on which inputs it does.
-/

namespace Yggdrasil.Consensus.Praos

open Ledger Library

/-- Which era's derivation of the leader value applies. -/
inductive VrfMode where
  | tPraos
  | praos
deriving DecidableEq, Repr

abbrev VrfOutput := Vector UInt8 64

/-- A relative stake in `(0, 1]`. -/
structure StakeFraction where
  num : UInt64
  den : UInt64
  num_pos : 0 < num
  num_le_den : num ≤ den

theorem StakeFraction.den_pos (sigma : StakeFraction) : 0 < sigma.den.toNat := by
  have hpos : 0 < sigma.num.toNat := sigma.num_pos
  have hle : sigma.num.toNat ≤ sigma.den.toNat := sigma.num_le_den
  exact hpos.trans_le hle

section

variable (hashBytes256 : Bytes → Hash32)

variable (output : VrfOutput) (sigma : StakeFraction)

/-- The natural a VRF output stands for and its exclusive bound `certNatMax`: the raw 512-bit
output for TPraos, the hash of `'L'` and the output for Praos. -/
def certNat : VrfMode → Nat × Nat
  | .tPraos => (natOfBytesBe output.toList, 2 ^ 512)
  | .praos => ((hashBytes256 ((76 : UInt8) :: output.toList)).toNat, 2 ^ 256)

def leaderTarget (mode : VrfMode) : Nat :=
  (certNat hashBytes256 output mode).2 - (certNat hashBytes256 output mode).1

/-- The exponent `sigma * activeSlotLog`. -/
def leaderExponent (sigmaNum sigmaDen : UInt64) (hden : 0 < sigmaDen.toNat)
    (coeff : ActiveSlotCoeff) : Fraction :=
  Fraction.mul { num := sigmaNum.toNat, den := sigmaDen.toNat, den_pos := hden } coeff.log

/-- Does the VRF output win the slot for relative stake `sigmaNum / sigmaDen`? -/
def checkLeaderValue (sigmaNum sigmaDen : UInt64) (coeff : ActiveSlotCoeff) (mode : VrfMode) :
    Except ConsensusError Bool :=
  if hden : sigmaDen.toNat = 0 then
    .error .invalidActiveSlotCoeff
  else if sigmaNum = 0 then
    .ok false
  else if (certNat hashBytes256 output mode).1 ≥ (certNat hashBytes256 output mode).2 then
    .ok false
  else
    taylorExpCmp (certNat hashBytes256 output mode).2 (leaderTarget hashBytes256 output mode)
      (leaderExponent sigmaNum sigmaDen (Nat.pos_of_ne_zero hden) coeff)

/-! ## The threshold it stands for -/

/-- The Praos threshold `certNatMax * exp (-x)` over the reals. -/
noncomputable def leaderThreshold (output : VrfOutput) (mode : VrfMode) (x : Fraction) : ℝ :=
  (certNat hashBytes256 output mode).2 * Real.exp (-(x.value : ℝ))

def StakeFraction.exponent (coeff : ActiveSlotCoeff) : Fraction :=
  leaderExponent sigma.num sigma.den sigma.den_pos coeff

/-- The check answers `true` only above the threshold, and `false` from inside its series loop
only at or below it. -/
def DecidesThreshold (coeff : ActiveSlotCoeff) (mode : VrfMode) : Prop :=
  (checkLeaderValue hashBytes256 output sigma.num sigma.den coeff mode = .ok true →
    leaderThreshold hashBytes256 output mode (sigma.exponent coeff) <
      leaderTarget hashBytes256 output mode) ∧
  (seriesAnswer (certNat hashBytes256 output mode).2 (leaderTarget hashBytes256 output mode)
      (sigma.exponent coeff) = some false →
    (leaderTarget hashBytes256 output mode : ℝ) ≤
      leaderThreshold hashBytes256 output mode (sigma.exponent coeff))

theorem certNat_lt (mode : VrfMode) :
    (certNat hashBytes256 output mode).1 < (certNat hashBytes256 output mode).2 := by
  cases mode with
  | tPraos =>
    have hbound := natOfBytesBe_lt output.toList
    rw [Vector.length_toList] at hbound
    have hmax : 256 ^ 64 = 2 ^ 512 := by decide +kernel
    simpa only [certNat, hmax] using hbound
  | praos => exact (hashBytes256 _).isLt

/-- With positive stake the check is the linear comparison `q * (1 - x) < target`. -/
theorem checkLeaderValue_eq (coeff : ActiveSlotCoeff) (mode : VrfMode) :
    checkLeaderValue hashBytes256 output sigma.num sigma.den coeff mode =
      .ok (decide (((certNat hashBytes256 output mode).2 : ℚ) *
        (1 - (sigma.exponent coeff).value) < leaderTarget hashBytes256 output mode)) := by
  have hstake : sigma.num ≠ 0 := fun hzero => absurd (hzero ▸ sigma.num_pos) (by decide)
  have hinRange := not_le.mpr (certNat_lt hashBytes256 output mode)
  simp only [checkLeaderValue, dif_neg sigma.den_pos.ne', if_neg hstake, if_neg hinRange,
    taylorExpCmp, seriesAnswer_eq, Option.getD_some]
  rfl

/-- The first partial sum is below the exponential, scaled to the threshold. -/
theorem firstSum_le_threshold (mode : VrfMode) (x : Fraction) :
    (((certNat hashBytes256 output mode).2 : ℚ) * (1 - x.value) : ℚ) ≤
      leaderThreshold hashBytes256 output mode x := by
  have hexp : 1 - (x.value : ℝ) ≤ Real.exp (-(x.value : ℝ)) := Real.one_sub_le_exp_neg _
  push_cast [leaderThreshold]
  gcongr

/-- **Leader check against the Praos threshold.**  For every VRF output, stake fraction in
`(0, 1]` and coefficient the check decides the threshold exactly when the target does not lie
strictly above `q * (1 - x)` and at or below `q * exp (-x)`: there it answers `true` below the
threshold. -/
theorem decidesThreshold_iff (output : VrfOutput) (sigma : StakeFraction)
    (coeff : ActiveSlotCoeff) (mode : VrfMode) :
    DecidesThreshold hashBytes256 output sigma coeff mode ↔
      ¬ (((certNat hashBytes256 output mode).2 : ℚ) * (1 - (sigma.exponent coeff).value) <
            leaderTarget hashBytes256 output mode ∧
          (leaderTarget hashBytes256 output mode : ℝ) ≤
            leaderThreshold hashBytes256 output mode (sigma.exponent coeff)) := by
  have hfirst := firstSum_le_threshold hashBytes256 output mode (sigma.exponent coeff)
  rw [DecidesThreshold, checkLeaderValue_eq, seriesAnswer_eq, Except.ok.injEq,
    Option.some.injEq, decide_eq_true_iff, decide_eq_false_iff_not, not_and, not_le]
  constructor
  · exact fun hdecides => hdecides.1
  · intro htrue
    refine ⟨htrue, fun hfalse => ?_⟩
    have htarget := not_lt.mp hfalse
    exact le_trans (by exact_mod_cast htarget) hfirst

end

/-! ## A slot won below the threshold -/

def fullStake : StakeFraction where
  num := 1
  den := 1
  num_pos := by decide
  num_le_den := by decide

/-- A VRF output of 13/256 of the range: above 1/20, the chance of the whole stake for the
coefficient 1/20, and below `-ln (19/20)`. -/
def lateOutput : VrfOutput := Vector.ofFn fun index => if index.val = 0 then 13 else 0

theorem certNatMax_split : 2 ^ 512 = 256 * 2 ^ 504 := by decide +kernel

theorem leaderTarget_lateOutput (hashBytes256 : Bytes → Hash32) :
    leaderTarget hashBytes256 lateOutput .tPraos = 243 * 2 ^ 504 := by
  have hnat : natOfBytesBe lateOutput.toList = 13 * 2 ^ 504 := by decide +kernel
  simp only [leaderTarget, certNat]
  omega

theorem exponent_fullStake (coeff : ActiveSlotCoeff) :
    (fullStake.exponent coeff).value = coeff.log.value := by
  rw [StakeFraction.exponent, leaderExponent, Fraction.value_mul]
  simp [fullStake, Fraction.value]

variable {coeff : ActiveSlotCoeff}

section

variable (hbuild : ActiveSlotCoeff.fromRational 1 20 = .ok coeff)
include hbuild

theorem log_twentieth_value :
    coeff.log.value = ∑ i ∈ Finset.range lnSeriesTerms, (1 / 20 : ℚ) ^ (i + 1) / (i + 1) := by
  rw [ActiveSlotCoeff.log_value_of_fromRational hbuild]
  rfl

/-- Two terms of the series at 1/20 already exceed 13/256. -/
theorem lt_log_twentieth : 13 / 256 < coeff.log.value := by
  rw [log_twentieth_value hbuild]
  have htwo : ∑ i ∈ Finset.range 2, (1 / 20 : ℚ) ^ (i + 1) / (i + 1) ≤
      ∑ i ∈ Finset.range lnSeriesTerms, (1 / 20 : ℚ) ^ (i + 1) / (i + 1) := by
    refine Finset.sum_le_sum_of_subset_of_nonneg ?_ fun i _ _ => by positivity
    exact Finset.range_mono (by decide)
  refine lt_of_lt_of_le ?_ htwo
  norm_num [Finset.sum_range_succ]

theorem log_twentieth_le : (coeff.log.value : ℝ) ≤ -Real.log (19 / 20) := by
  rw [log_twentieth_value hbuild]
  have hseries := Real.hasSum_pow_div_log_of_abs_lt_one (x := (1 / 20 : ℝ)) (by norm_num)
  have hbound := sum_le_hasSum (Finset.range lnSeriesTerms) (fun i _ => by positivity) hseries
  have hargument : (1 : ℝ) - 1 / 20 = 19 / 20 := by norm_num
  rw [hargument] at hbound
  push_cast
  exact hbound

end

/-- With the coefficient 1/20 the whole stake wins a slot it should lose: the check answers
`true` for a target below the threshold. -/
theorem lateOutput_not_decided :
    ∃ coeff, ActiveSlotCoeff.fromRational 1 20 = .ok coeff ∧
      ∀ hashBytes256, ¬ DecidesThreshold hashBytes256 lateOutput fullStake coeff .tPraos := by
  obtain ⟨coeff, hbuild⟩ : ∃ coeff, ActiveSlotCoeff.fromRational 1 20 = .ok coeff := by
    unfold ActiveSlotCoeff.fromRational
    rw [dif_neg (by decide)]
    exact ⟨_, rfl⟩
  refine ⟨coeff, hbuild, fun hashBytes256 hdecides => ?_⟩
  have hlow := lt_log_twentieth hbuild
  -- the check answers `true`: the target exceeds `2 ^ 512 * (1 - x)`
  have hwins : checkLeaderValue hashBytes256 lateOutput fullStake.num fullStake.den coeff
      .tPraos = .ok true := by
    rw [checkLeaderValue_eq, Except.ok.injEq, decide_eq_true_iff, exponent_fullStake,
      leaderTarget_lateOutput, certNat, certNatMax_split]
    have hpos : (0 : ℚ) < 2 ^ 504 := by positivity
    simp only [Nat.cast_mul, Nat.cast_pow, Nat.cast_ofNat]
    generalize (2 : ℚ) ^ 504 = unit at hpos ⊢
    nlinarith [mul_pos hpos (sub_pos.mpr hlow)]
  -- but the threshold is at least `2 ^ 512 * 19/20`
  have hthreshold := hdecides.1 hwins
  have hexp : (19 / 20 : ℝ) ≤ Real.exp (-(coeff.log.value : ℝ)) := by
    rw [← Real.log_le_iff_le_exp (by norm_num)]
    linarith [log_twentieth_le hbuild]
  rw [leaderThreshold, exponent_fullStake, leaderTarget_lateOutput, certNat, certNatMax_split]
    at hthreshold
  have hpos : (0 : ℝ) < 2 ^ 504 := by positivity
  simp only [Nat.cast_mul, Nat.cast_pow, Nat.cast_ofNat] at hthreshold
  generalize (2 : ℝ) ^ 504 = unit at hpos hthreshold
  nlinarith [mul_le_mul_of_nonneg_left hexp hpos.le]

end Yggdrasil.Consensus.Praos
