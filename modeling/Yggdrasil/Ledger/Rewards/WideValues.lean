import Yggdrasil.Library.LongDivision
import Yggdrasil.Ledger.Rewards.WideArithmetic

/-!
# What the wide integers stand for

The value of a `U256` and a `U512`, and what each operation does to it.  Products, comparisons
and subtractions from something larger are exact; sums and shifts are exact up to their width.
-/

namespace Yggdrasil.Ledger.Rewards

/-! ## Words -/

theorem toNat_carryWord (carry : Bool) : (carryWord carry).toNat = carry.toNat := by
  cases carry <;> rfl

variable (a b : U128)

theorem overflowingAdd_value :
    (overflowingAdd a b).1.toNat + (overflowingAdd a b).2.toNat * 2 ^ 128 = a.toNat + b.toNat := by
  unfold overflowingAdd BitVec.uaddOverflow
  rw [BitVec.toNat_add]
  by_cases hcarry : a.toNat + b.toNat ≥ 2 ^ 128
  · simp only [hcarry, decide_true, Bool.toNat_true]
    omega
  · simp only [hcarry, decide_false, Bool.toNat_false]
    omega

theorem overflowingSub_value :
    (overflowingSub a b).1.toNat + b.toNat = a.toNat + (overflowingSub a b).2.toNat * 2 ^ 128 := by
  unfold overflowingSub BitVec.usubOverflow
  rw [BitVec.toNat_sub]
  by_cases hborrow : a.toNat < b.toNat
  · simp only [hborrow, decide_true, Bool.toNat_true]
    omega
  · simp only [hborrow, decide_false, Bool.toNat_false]
    omega

/-- Two words and a carry, with the carry out of either addition. -/
def addCarry (carry : Bool) : U128 × Bool :=
  let first := overflowingAdd a b
  let second := overflowingAdd first.1 (carryWord carry)
  (second.1, first.2 || second.2)

theorem addCarry_value (carry : Bool) :
    (addCarry a b carry).1.toNat + (addCarry a b carry).2.toNat * 2 ^ 128 =
      a.toNat + b.toNat + carry.toNat := by
  have hfirst := overflowingAdd_value a b
  have hsecond := overflowingAdd_value (overflowingAdd a b).1 (carryWord carry)
  rw [toNat_carryWord] at hsecond
  have hcarry := Bool.toNat_le carry
  unfold addCarry
  dsimp only
  generalize overflowingAdd (overflowingAdd a b).1 (carryWord carry) = second at hsecond ⊢
  generalize overflowingAdd a b = first at hfirst hsecond ⊢
  obtain ⟨low, carryFirst⟩ := first
  obtain ⟨lower, carrySecond⟩ := second
  -- both additions cannot overflow
  cases carryFirst <;> cases carrySecond <;>
    simp only [Bool.or_false, Bool.or_true, Bool.toNat_true, Bool.toNat_false] at * <;> omega

/-- A word less a word and a borrow, with the borrow of either subtraction. -/
def subBorrow (borrow : Bool) : U128 × Bool :=
  let first := overflowingSub a b
  let second := overflowingSub first.1 (carryWord borrow)
  (second.1, first.2 || second.2)

theorem subBorrow_value (borrow : Bool) :
    (subBorrow a b borrow).1.toNat + b.toNat + borrow.toNat =
      a.toNat + (subBorrow a b borrow).2.toNat * 2 ^ 128 := by
  have hfirst := overflowingSub_value a b
  have hsecond := overflowingSub_value (overflowingSub a b).1 (carryWord borrow)
  have hlow := (overflowingSub a b).1.isLt
  have hlower := (overflowingSub (overflowingSub a b).1 (carryWord borrow)).1.isLt
  rw [toNat_carryWord] at hsecond
  have hborrow := Bool.toNat_le borrow
  unfold subBorrow
  dsimp only
  generalize overflowingSub (overflowingSub a b).1 (carryWord borrow) = second at hsecond hlower ⊢
  generalize overflowingSub a b = first at hfirst hsecond hlow ⊢
  obtain ⟨low, borrowFirst⟩ := first
  obtain ⟨lower, borrowSecond⟩ := second
  -- both subtractions cannot borrow
  cases borrowFirst <;> cases borrowSecond <;>
    simp only [Bool.or_false, Bool.or_true, Bool.toNat_false] at * <;> omega

/-! ## 256 bits -/

def U256.value (a : U256) : Nat := a.hi.toNat * 2 ^ 128 + a.lo.toNat

theorem U256.value_lt (a : U256) : a.value < 2 ^ 256 := by
  unfold U256.value
  omega

theorem U256.value_zero : U256.zero.value = 0 := rfl

theorem U256.value_inj {a b : U256} (h : a.value = b.value) : a = b := by
  unfold U256.value at h
  have hhi : a.hi = b.hi := BitVec.eq_of_toNat_eq (by omega)
  have hlo : a.lo = b.lo := BitVec.eq_of_toNat_eq (by omega)
  cases a
  cases b
  simp_all

theorem U256.le_iff (a b : U256) : a.le b = true ↔ a.value ≤ b.value := by
  unfold U256.le U256.value
  simp only [Bool.or_eq_true, Bool.and_eq_true, decide_eq_true_eq, BitVec.lt_def, BitVec.le_def,
    ← BitVec.toNat_inj]
  omega

theorem U256.lt_iff (a b : U256) : a.lt b = true ↔ a.value < b.value := by
  unfold U256.lt
  rw [Bool.and_eq_true, U256.le_iff, decide_eq_true_eq]
  refine ⟨fun h => lt_of_le_of_ne h.1 fun hsame => h.2 (U256.value_inj hsame), fun h => ?_⟩
  exact ⟨le_of_lt h, fun hsame => lt_irrefl _ (hsame ▸ h)⟩

/-- Half words multiply without overflow, with room for another two of them. -/
theorem toNat_mul_half {a b : U128} (ha : a.toNat < 2 ^ 64) (hb : b.toNat < 2 ^ 64) :
    (a * b).toNat = a.toNat * b.toNat ∧ a.toNat * b.toNat ≤ 2 ^ 128 - 2 ^ 65 + 1 := by
  have hbound : a.toNat * b.toNat ≤ (2 ^ 64 - 1) * (2 ^ 64 - 1) :=
    Nat.mul_le_mul (by omega) (by omega)
  refine ⟨?_, by omega⟩
  rw [BitVec.toNat_mul]
  exact Nat.mod_eq_of_lt (by omega)

theorem toNat_lowCarry :
    (a + b).toNat + (carryWord (a + b < a)).toNat * 2 ^ 128 = a.toNat + b.toNat := by
  rw [toNat_carryWord]
  by_cases hcarry : a + b < a
  · rw [decide_eq_true hcarry, Bool.toNat_true]
    rw [BitVec.lt_def, BitVec.toNat_add] at hcarry
    rw [BitVec.toNat_add]
    omega
  · rw [decide_eq_false hcarry, Bool.toNat_false]
    rw [BitVec.lt_def, BitVec.toNat_add] at hcarry
    rw [BitVec.toNat_add]
    omega

theorem U256.value_wideningMul : (U256.wideningMul a b).value = a.toNat * b.toNat := by
  obtain ⟨al, hal⟩ : ∃ x, x = (a.setWidth 64).setWidth 128 := ⟨_, rfl⟩
  obtain ⟨bl, hbl⟩ : ∃ x, x = (b.setWidth 64).setWidth 128 := ⟨_, rfl⟩
  obtain ⟨ah, hah⟩ : ∃ x, x = a >>> 64 := ⟨_, rfl⟩
  obtain ⟨bh, hbh⟩ : ∃ x, x = b >>> 64 := ⟨_, rfl⟩
  have hal' : al.toNat = a.toNat % 2 ^ 64 := by
    rw [hal, BitVec.toNat_setWidth, BitVec.toNat_setWidth]
    omega
  have hbl' : bl.toNat = b.toNat % 2 ^ 64 := by
    rw [hbl, BitVec.toNat_setWidth, BitVec.toNat_setWidth]
    omega
  have hah' : ah.toNat = a.toNat / 2 ^ 64 := by
    rw [hah, BitVec.toNat_ushiftRight, Nat.shiftRight_eq_div_pow]
  have hbh' : bh.toNat = b.toNat / 2 ^ 64 := by
    rw [hbh, BitVec.toNat_ushiftRight, Nat.shiftRight_eq_div_pow]
  obtain ⟨hll, hllBound⟩ := toNat_mul_half (a := al) (b := bl) (by omega) (by omega)
  obtain ⟨hlh, hlhBound⟩ := toNat_mul_half (a := al) (b := bh) (by omega) (by omega)
  obtain ⟨hhl, hhlBound⟩ := toNat_mul_half (a := ah) (b := bl) (by omega) (by omega)
  obtain ⟨hhh, hhhBound⟩ := toNat_mul_half (a := ah) (b := bh) (by omega) (by omega)
  -- the product over the halves
  have hproduct : a.toNat * b.toNat = ah.toNat * bh.toNat * 2 ^ 128 +
      (al.toNat * bh.toNat + ah.toNat * bl.toNat) * 2 ^ 64 + al.toNat * bl.toNat := by
    have hsplitA : a.toNat = ah.toNat * 2 ^ 64 + al.toNat := by omega
    have hsplitB : b.toNat = bh.toNat * 2 ^ 64 + bl.toNat := by omega
    rw [hsplitA, hsplitB]
    ring
  have hmid := overflowingAdd_value (al * bh) (ah * bl)
  unfold U256.wideningMul U256.value
  rw [← hal, ← hbl, ← hah, ← hbh]
  dsimp only
  generalize overflowingAdd (al * bh) (ah * bl) = mid at hmid ⊢
  obtain ⟨mid, carry⟩ := mid
  dsimp only at hmid ⊢
  have hlow := toNat_lowCarry (al * bl) (mid <<< 64)
  have hshifted : (mid <<< 64).toNat = mid.toNat % 2 ^ 64 * 2 ^ 64 := by
    rw [BitVec.toNat_shiftLeft, Nat.shiftLeft_eq]
    omega
  have hcarry : ((if carry then 1 <<< 64 else 0 : Nat) : U128).toNat = carry.toNat * 2 ^ 64 := by
    cases carry <;> rfl
  have hmidLt := mid.isLt
  rw [BitVec.toNat_add, BitVec.toNat_add, BitVec.toNat_add, BitVec.toNat_ushiftRight,
    Nat.shiftRight_eq_div_pow, hcarry, hhh]
  rw [hlh, hhl] at hmid
  rw [hll, hshifted] at hlow
  generalize (al * bl + mid <<< 64).toNat = low at hlow ⊢
  generalize (carryWord _).toNat = lowCarry at hlow ⊢
  omega

theorem U256.value_mulU128 {a : U256} {b : U128} (hfits : a.value * b.toNat < 2 ^ 256) :
    (a.mulU128 b).value = a.value * b.toNat := by
  have hlow := U256.value_wideningMul a.lo b
  have hsplit : a.value * b.toNat = a.hi.toNat * b.toNat * 2 ^ 128 + a.lo.toNat * b.toNat := by
    unfold U256.value
    ring
  rw [hsplit, ← hlow] at hfits
  rw [hsplit, ← hlow]
  unfold U256.mulU128
  unfold U256.value at hfits ⊢
  dsimp only
  rw [BitVec.toNat_add, BitVec.toNat_mul]
  generalize a.hi.toNat * b.toNat = high at hfits ⊢
  omega

theorem U256.value_checkedSub {a b : U256} (hle : b.value ≤ a.value) :
    (a.checkedSub b).value = a.value - b.value := by
  have hlow := overflowingSub_value a.lo b.lo
  have hlowLt := (overflowingSub a.lo b.lo).1.isLt
  have hborrow := Bool.toNat_le (overflowingSub a.lo b.lo).2
  unfold U256.checkedSub U256.value at *
  dsimp only
  rw [BitVec.toNat_sub, BitVec.toNat_sub, toNat_carryWord]
  omega

/-- A doubled word with a bit put in, up to the bit that falls out. -/
theorem toNat_shiftIn (a : U128) {bit : U128} (hbit : bit.toNat ≤ 1) :
    ((a <<< 1) ||| bit).toNat = (2 * a.toNat + bit.toNat) % 2 ^ 128 := by
  have hdouble : a.toNat * 2 % 2 ^ 128 = 2 ^ 1 * (a.toNat % 2 ^ 127) := by omega
  rw [BitVec.toNat_or, BitVec.toNat_shiftLeft, Nat.shiftLeft_eq, hdouble, ←
    Nat.two_pow_add_eq_or_of_lt (by omega)]
  omega

theorem toNat_shiftIn_carry (a : U128) (carry : Bool) :
    ((a <<< 1) ||| carryWord carry).toNat = (2 * a.toNat + carry.toNat) % 2 ^ 128 := by
  rw [← toNat_carryWord]
  exact toNat_shiftIn a (toNat_carryWord carry ▸ Bool.toNat_le carry)

theorem toNat_shiftIn_high :
    ((a <<< 1) ||| (b >>> 127)).toNat = (2 * a.toNat + b.toNat / 2 ^ 127) % 2 ^ 128 := by
  have hhigh : (b >>> 127).toNat = b.toNat / 2 ^ 127 := by
    rw [BitVec.toNat_ushiftRight, Nat.shiftRight_eq_div_pow]
  rw [toNat_shiftIn a (by omega), hhigh]

theorem U256.value_shl1 (a : U256) (bit : Bool) :
    (a.shl1 bit).value = (2 * a.value + bit.toNat) % 2 ^ 256 := by
  have hhi := toNat_shiftIn_high a.hi a.lo
  have hlo := toNat_shiftIn_carry a.lo bit
  have hbit := Bool.toNat_le bit
  unfold U256.shl1 U256.value
  dsimp only
  omega

/-! ## 512 bits -/

def U512.value (a : U512) : Nat := a.hi.value * 2 ^ 256 + a.lo.value

theorem U512.value_zero : U512.zero.value = 0 := by
  unfold U512.value U512.zero
  rw [U256.value_zero, Nat.zero_mul]

theorem U512.value_inj {a b : U512} (h : a.value = b.value) : a = b := by
  have ha := a.lo.value_lt
  have hb := b.lo.value_lt
  unfold U512.value at h
  have hhi : a.hi = b.hi := U256.value_inj (by omega)
  have hlo : a.lo = b.lo := U256.value_inj (by omega)
  cases a
  cases b
  simp_all

theorem U512.le_iff (a b : U512) : a.le b = true ↔ a.value ≤ b.value := by
  have ha := a.lo.value_lt
  have hb := b.lo.value_lt
  unfold U512.le U512.value
  by_cases hhi : a.hi = b.hi
  · rw [if_pos hhi, U256.le_iff, hhi]
    omega
  · have hne : a.hi.value ≠ b.hi.value := fun hsame => hhi (U256.value_inj hsame)
    rw [if_neg hhi, Bool.and_eq_true, U256.le_iff, decide_eq_true_eq]
    refine ⟨fun h => ?_, fun h => ⟨?_, hhi⟩⟩
    · omega
    · omega

theorem U512.lt_iff (a b : U512) : a.lt b = true ↔ a.value < b.value := by
  unfold U512.lt
  rw [Bool.and_eq_true, U512.le_iff, decide_eq_true_eq]
  refine ⟨fun h => lt_of_le_of_ne h.1 fun hsame => h.2 (U512.value_inj hsame), fun h => ?_⟩
  exact ⟨le_of_lt h, fun hsame => lt_irrefl _ (hsame ▸ h)⟩

theorem U512.add_eq (a b : U512) :
    a.add b =
      let low := overflowingAdd a.lo.lo b.lo.lo
      let mid := addCarry a.lo.hi b.lo.hi low.2
      let high := addCarry a.hi.lo b.hi.lo mid.2
      ⟨⟨a.hi.hi + b.hi.hi + carryWord high.2, high.1⟩, ⟨mid.1, low.1⟩⟩ := rfl

theorem U512.value_add (a b : U512) : (a.add b).value = (a.value + b.value) % 2 ^ 512 := by
  have hlow := overflowingAdd_value a.lo.lo b.lo.lo
  rw [U512.add_eq]
  generalize overflowingAdd a.lo.lo b.lo.lo = low at hlow ⊢
  have hmid := addCarry_value a.lo.hi b.lo.hi low.2
  dsimp only
  generalize addCarry a.lo.hi b.lo.hi low.2 = mid at hmid ⊢
  have hhigh := addCarry_value a.hi.lo b.hi.lo mid.2
  generalize addCarry a.hi.lo b.hi.lo mid.2 = high at hhigh ⊢
  unfold U512.value U256.value
  dsimp only
  rw [BitVec.toNat_add, BitVec.toNat_add, toNat_carryWord]
  omega

theorem U512.sub_eq (a b : U512) :
    a.sub b =
      let low := overflowingSub a.lo.lo b.lo.lo
      let mid := subBorrow a.lo.hi b.lo.hi low.2
      let high := subBorrow a.hi.lo b.hi.lo mid.2
      ⟨⟨a.hi.hi - b.hi.hi - carryWord high.2, high.1⟩, ⟨mid.1, low.1⟩⟩ := rfl

theorem U512.value_sub {a b : U512} (hle : b.value ≤ a.value) :
    (a.sub b).value = a.value - b.value := by
  have hlow := overflowingSub_value a.lo.lo b.lo.lo
  rw [U512.sub_eq]
  generalize overflowingSub a.lo.lo b.lo.lo = low at hlow ⊢
  have hmid := subBorrow_value a.lo.hi b.lo.hi low.2
  dsimp only
  generalize subBorrow a.lo.hi b.lo.hi low.2 = mid at hmid ⊢
  have hhigh := subBorrow_value a.hi.lo b.hi.lo mid.2
  generalize subBorrow a.hi.lo b.hi.lo mid.2 = high at hhigh ⊢
  unfold U512.value U256.value at hle ⊢
  dsimp only at hle ⊢
  rw [BitVec.toNat_sub, BitVec.toNat_sub, toNat_carryWord]
  have h2 := high.1.isLt
  omega

theorem U512.value_fromU256TimesU128 (a : U256) (b : U128) :
    (U512.fromU256TimesU128 a b).value = a.value * b.toNat := by
  have hlow := U256.value_wideningMul a.lo b
  have hhigh := U256.value_wideningMul a.hi b
  have hlimit := mul_le_mul (Nat.le_sub_one_of_lt a.hi.isLt) (Nat.le_sub_one_of_lt b.isLt)
  have hsplit : a.value * b.toNat = a.hi.toNat * b.toNat * 2 ^ 128 + a.lo.toNat * b.toNat := by
    unfold U256.value
    ring
  rw [hsplit, ← hlow, ← hhigh]
  rw [← hhigh] at hlimit
  unfold U512.fromU256TimesU128
  generalize U256.wideningMul a.lo b = low
  generalize U256.wideningMul a.hi b = high at hlimit ⊢
  dsimp only
  have hmid := overflowingAdd_value low.hi high.lo
  generalize overflowingAdd low.hi high.lo = mid at hmid ⊢
  unfold U512.value
  unfold U256.value at hlimit ⊢
  dsimp only
  rw [BitVec.toNat_add, toNat_carryWord]
  have hzero : (0 : U128).toNat = 0 := rfl
  rw [hzero]
  omega

theorem U512.value_mulU128 {a : U512} {b : U128} (hfits : a.value * b.toNat < 2 ^ 512) :
    (a.mulU128 b).value = a.value * b.toNat := by
  have hlow := U512.value_fromU256TimesU128 a.lo b
  have hhigh := U512.value_fromU256TimesU128 a.hi b
  have hsplit : a.value * b.toNat = a.hi.value * b.toNat * 2 ^ 256 + a.lo.value * b.toNat := by
    unfold U512.value
    ring
  have hzero := U256.value_zero
  rw [U512.mulU128, U512.value_add, hlow]
  rw [hsplit, ← hhigh] at hfits
  rw [hsplit, ← hhigh]
  unfold U512.value at hfits ⊢
  dsimp only
  omega

theorem U512.mulU256_eq (a b : U256) :
    U512.mulU256 a b =
      let lowLow := U256.wideningMul a.lo b.lo
      let lowHigh := U256.wideningMul a.lo b.hi
      let highLow := U256.wideningMul a.hi b.lo
      let highHigh := U256.wideningMul a.hi b.hi
      let mid1 := overflowingAdd lowLow.hi lowHigh.lo
      let high1 := addCarry 0 lowHigh.hi mid1.2
      let mid2 := overflowingAdd mid1.1 highLow.lo
      let high2 := addCarry high1.1 highLow.hi mid2.2
      let top := overflowingAdd high2.1 highHigh.lo
      ⟨⟨highHigh.hi + carryWord top.2 + (carryWord high1.2 + carryWord high2.2), top.1⟩,
        ⟨mid2.1, lowLow.lo⟩⟩ := rfl

theorem U512.value_mulU256 (a b : U256) : (U512.mulU256 a b).value = a.value * b.value := by
  have hlimit := mul_le_mul (Nat.le_sub_one_of_lt a.value_lt) (Nat.le_sub_one_of_lt b.value_lt)
  have hsplit : a.value * b.value = a.hi.toNat * b.hi.toNat * 2 ^ 256 +
      (a.lo.toNat * b.hi.toNat + a.hi.toNat * b.lo.toNat) * 2 ^ 128 + a.lo.toNat * b.lo.toNat := by
    unfold U256.value
    ring
  rw [hsplit, ← U256.value_wideningMul, ← U256.value_wideningMul a.lo b.hi, ← U256.value_wideningMul
    a.hi b.lo, ← U256.value_wideningMul a.lo b.lo] at hlimit
  rw [hsplit, ← U256.value_wideningMul a.hi b.hi, ← U256.value_wideningMul a.lo b.hi,
    ← U256.value_wideningMul a.hi b.lo, ← U256.value_wideningMul a.lo b.lo, U512.mulU256_eq]
  generalize U256.wideningMul a.lo b.lo = lowLow at hlimit ⊢
  generalize U256.wideningMul a.lo b.hi = lowHigh at hlimit ⊢
  generalize U256.wideningMul a.hi b.lo = highLow at hlimit ⊢
  generalize U256.wideningMul a.hi b.hi = highHigh at hlimit ⊢
  dsimp only
  have hmid1 := overflowingAdd_value lowLow.hi lowHigh.lo
  generalize overflowingAdd lowLow.hi lowHigh.lo = mid1 at hmid1 ⊢
  have hhigh1 := addCarry_value 0 lowHigh.hi mid1.2
  generalize addCarry 0 lowHigh.hi mid1.2 = high1 at hhigh1 ⊢
  have hmid2 := overflowingAdd_value mid1.1 highLow.lo
  generalize overflowingAdd mid1.1 highLow.lo = mid2 at hmid2 ⊢
  have hhigh2 := addCarry_value high1.1 highLow.hi mid2.2
  generalize addCarry high1.1 highLow.hi mid2.2 = high2 at hhigh2 ⊢
  have htop := overflowingAdd_value high2.1 highHigh.lo
  generalize overflowingAdd high2.1 highHigh.lo = top at htop ⊢
  have hzero : (0 : U128).toNat = 0 := rfl
  rw [hzero, zero_add] at hhigh1
  -- the columns of the product, as if the highest word had no end
  have hcolumns : (highHigh.hi.toNat + top.2.toNat + (high1.2.toNat + high2.2.toNat)) *
      2 ^ 128 * 2 ^ 256 +
      top.1.toNat * 2 ^ 256 + mid2.1.toNat * 2 ^ 128 + lowLow.lo.toNat =
        highHigh.value * 2 ^ 256 + (lowHigh.value + highLow.value) * 2 ^ 128 + lowLow.value := by
    unfold U256.value
    linear_combination (2 ^ 128 : Nat) * hmid1 + 2 ^ 256 * hhigh1 + 2 ^ 128 * hmid2 +
      2 ^ 256 * hhigh2 + 2 ^ 256 * htop
  rw [← hcolumns] at hlimit ⊢
  have hword : highHigh.hi.toNat + top.2.toNat + (high1.2.toNat + high2.2.toNat) < 2 ^ 128 := by
    omega
  unfold U512.value U256.value
  rw [BitVec.toNat_add, BitVec.toNat_add, BitVec.toNat_add, toNat_carryWord, toNat_carryWord,
    toNat_carryWord, Nat.add_mod_mod, Nat.mod_add_mod, Nat.mod_eq_of_lt hword]
  ring

theorem U512.value_shl1 (a : U512) (bit : Bool) :
    (a.shl1 bit).value = (2 * a.value + bit.toNat) % 2 ^ 512 := by
  have hhh := toNat_shiftIn_high a.hi.hi a.hi.lo
  have hhl := toNat_shiftIn_high a.hi.lo a.lo.hi
  have hlh := toNat_shiftIn_high a.lo.hi a.lo.lo
  have hll := toNat_shiftIn_carry a.lo.lo bit
  have hlow := a.lo.lo.isLt
  have hbit := Bool.toNat_le bit
  unfold U512.shl1 U512.value U256.value
  dsimp only
  omega

theorem U256.testBit_value (a : U256) (i : Nat) :
    a.value.testBit i = if i < 128 then a.lo.getLsbD i else a.hi.getLsbD (i - 128) := by
  unfold U256.value
  rw [mul_comm, Nat.testBit_two_pow_mul_add _ a.lo.isLt]
  rfl

theorem U512.bit_eq (a : U512) (i : Nat) : a.bit i = a.value.testBit i := by
  unfold U512.value U512.bit
  rw [mul_comm, Nat.testBit_two_pow_mul_add _ a.lo.value_lt, U256.testBit_value,
    U256.testBit_value]
  by_cases h384 : 384 ≤ i
  · rw [if_pos h384, if_neg (by omega), if_neg (by omega), Nat.sub_sub]
  · by_cases h256 : 256 ≤ i
    · rw [if_neg h384, if_pos h256, if_neg (by omega), if_pos (by omega)]
    · by_cases h128 : 128 ≤ i
      · rw [if_neg h384, if_neg h256, if_pos h128, if_pos (by omega), if_neg (by omega)]
      · rw [if_neg h384, if_neg h256, if_neg h128, if_pos (by omega), if_pos (by omega)]

end Yggdrasil.Ledger.Rewards
