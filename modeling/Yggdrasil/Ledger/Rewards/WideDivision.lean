import Yggdrasil.Ledger.Rewards.WideValues

/-!
# Division of wide integers

What the long divisions and the bisection of `rewards.rs` return.  Division by a word is exact up to
the largest word.  The remainder of the division by 256 bits has 256 bits and loses its highest one
when it is shifted; the remainder of the division by 512 bits has room.
-/

namespace Yggdrasil.Ledger.Rewards

open Library

/-! ## Bits of a quotient -/

variable {i : Nat}

theorem toNat_bitAt (hi : i < 128) : (bitAt i).toNat = 2 ^ i := by
  unfold bitAt
  rw [Nat.mod_eq_of_lt hi, Nat.one_shiftLeft]
  exact Nat.mod_eq_of_lt (Nat.pow_lt_pow_right (by decide) hi)

/-- A bit below those that are set does not reach the next word. -/
theorem setBit_div (quot : Nat) (hi : i < 128) :
    (2 * quot + 1) * 2 ^ i / 2 ^ 128 = quot * 2 ^ (i + 1) / 2 ^ 128 := by
  have hword : 2 ^ 128 = 2 ^ (i + 1) * 2 ^ (127 - i) := by
    rw [← pow_add]
    congr 1
    omega
  have hset : (2 * quot + 1) * 2 ^ i = 2 ^ (i + 1) * quot + 2 ^ i := by ring
  have hless : 2 ^ i < 2 ^ (i + 1) := Nat.pow_lt_pow_right (by decide) (Nat.lt_succ_self i)
  rw [hword, ← Nat.div_div_eq_div_mul, ← Nat.div_div_eq_div_mul, hset,
    Nat.mul_add_div (Nat.two_pow_pos _), Nat.div_eq_of_lt hless, add_zero,
    Nat.mul_div_cancel _ (Nat.two_pow_pos _)]

/-- A word of the quotient that is still zero at and below `i` gets a bit there. -/
theorem toNat_setBit {word : U128} {quot : Nat} (hi : i < 128)
    (hword : word.toNat = quot * 2 ^ (i + 1) % 2 ^ 128) :
    (word ||| bitAt i).toNat = (2 * quot + 1) * 2 ^ i % 2 ^ 128 := by
  have hset : (2 * quot + 1) * 2 ^ i = quot * 2 ^ (i + 1) + 2 ^ i := by ring
  have hdiv := setBit_div quot hi
  obtain ⟨high, hhigh⟩ : 2 ^ (i + 1) ∣ word.toNat := by
    rw [hword]
    exact (Nat.dvd_mod_iff (pow_dvd_pow 2 (by omega))).mpr (Dvd.intro_left _ rfl)
  rw [BitVec.toNat_or, toNat_bitAt hi, hhigh, ← Nat.two_pow_add_eq_or_of_lt (Nat.pow_lt_pow_right
    (by decide) (Nat.lt_succ_self i)), ← hhigh]
  omega

/-! ## Division by a word -/

/-- The long division of 256 bits by a word: the highest bit of the remainder is not lost. -/
def WordDivision (num den i : Nat) (state : U128 × U128) : Prop :=
  ∃ quot, Dividing (2 ^ 128) 128 num den i state.1.toNat quot ∧
    state.2.toNat = quot * 2 ^ i % 2 ^ 128

variable (a : U256)

theorem wordDivision_step (d : U128) (hi : i < 128) {state : U128 × U128}
    (h : WordDivision a.value d.toNat (i + 1) state) :
    WordDivision a.value d.toNat i
      (match state with
      | (rem, quot) =>
        let overflow : Bool := 1 <<< 127 ≤ rem
        let shifted := (rem <<< 1) ||| carryWord (a.lo.getLsbD i)
        if overflow || d ≤ shifted then (shifted - d, quot ||| bitAt i)
        else (shifted, quot)) := by
  obtain ⟨rem, quot⟩ := state
  obtain ⟨total, hdividing, hquot⟩ := h
  have hbit := Bool.toNat_le (a.lo.getLsbD i)
  have htest : a.value.testBit i = a.lo.getLsbD i := by
    rw [U256.testBit_value, if_pos hi]
  have hshift := toNat_shiftIn_carry rem (a.lo.getLsbD i)
  have hbelow := hdividing.1
  have hnext := hdividing.step hi (by omega)
  rw [htest] at hnext
  have hlimit : ((1 <<< 127 : Nat) : U128).toNat = 2 ^ 127 := rfl
  dsimp only at hquot hnext hbelow ⊢
  rw [Nat.mod_eq_of_lt (by omega)] at hnext
  generalize (rem <<< 1) ||| carryWord (a.lo.getLsbD i) = shifted at hshift ⊢
  split
  case isTrue htake =>
    rw [Bool.or_eq_true, decide_eq_true_eq, decide_eq_true_eq, BitVec.le_def, BitVec.le_def,
      hlimit] at htake
    have hsub : (shifted - d).toNat = 2 * rem.toNat + (a.lo.getLsbD i).toNat - d.toNat := by
      rw [BitVec.toNat_sub]
      omega
    refine ⟨2 * total + 1, ?_, toNat_setBit hi hquot⟩
    rw [hsub]
    exact hnext.1 (by omega)
  case isFalse hkeep =>
    rw [Bool.or_eq_true, decide_eq_true_eq, decide_eq_true_eq, BitVec.le_def, BitVec.le_def,
      hlimit] at hkeep
    have hsame : shifted.toNat = 2 * rem.toNat + (a.lo.getLsbD i).toNat := by omega
    refine ⟨2 * total, ?_, ?_⟩
    · rw [hsame]
      exact hnext.2 (by omega)
    · rw [hquot]
      congr 1
      ring

theorem U256.toNat_divU128 {d : U128} (hd : 0 < d.toNat) :
    (a.divU128 d).toNat = min (a.value / d.toNat) (2 ^ 128 - 1) := by
  unfold U256.divU128
  rw [if_neg fun hzero => by rw [hzero] at hd; exact absurd hd (lt_irrefl 0)]
  split
  case isTrue hhi =>
    have hle := Nat.div_le_self a.lo.toNat d.toNat
    rw [BitVec.toNat_udiv, U256.value, hhi]
    simp only [BitVec.ofNat_eq_ofNat, BitVec.toNat_ofNat, Nat.zero_mod, Nat.zero_mul, zero_add]
    omega
  case isFalse _ =>
    split
    case isTrue hbig =>
      have hmax : maxU128.toNat = 2 ^ 128 - 1 := by decide
      rw [BitVec.le_def] at hbig
      have hlarge : 2 ^ 128 ≤ a.value / d.toNat := by
        rw [Nat.le_div_iff_mul_le hd, U256.value]
        omega
      omega
    case isFalse hsmall =>
      rw [BitVec.le_def, not_le] at hsmall
      have htop : a.value / 2 ^ 128 = a.hi.toNat := by
        unfold U256.value
        omega
      have hstart : WordDivision a.value d.toNat 128 (a.hi, 0) :=
        ⟨0, htop ▸ dividing_start (htop ▸ hsmall), by rw [Nat.zero_mul]; rfl⟩
      obtain ⟨quot, hdividing, hquot⟩ := foldl_bits (WordDivision a.value d.toNat) 128
        (fun i hi _ => wordDivision_step a d hi) hstart
      have hexact := (hdividing.quotient (by omega)).2.mpr fun j _ _ =>
        lt_trans (Nat.mod_lt _ hd) d.isLt
      have hfits : a.value / d.toNat < 2 ^ 128 := by
        rw [Nat.div_lt_iff_lt_mul hd, U256.value]
        omega
      refine hquot.trans ?_
      rw [pow_zero, mul_one, hexact, Nat.mod_eq_of_lt hfits]
      omega

/-! ## Division by wider numbers -/

/-- What the two quotient words stand for: the low word, and whether there is anything above. -/
def Records (quot : U128 × U128) (total : Nat) : Prop :=
  quot.2.toNat = total % 2 ^ 128 ∧ (quot.1 ≠ 0 ↔ 2 ^ 128 ≤ total)

theorem Records.set {words : U128 × U128} {quot : Nat} (h : Records words (quot * 2 ^ (i + 1))) :
    Records (setQuotientBit i words) ((2 * quot + 1) * 2 ^ i) := by
  obtain ⟨hlow, hhigh⟩ := h
  unfold setQuotientBit
  split
  case isTrue hi =>
    obtain ⟨more, rfl⟩ := Nat.exists_eq_add_of_le hi
    have hbit : bitAt (128 + more - 128) ≠ 0 := by
      intro hzero
      have hone := congrArg BitVec.toNat hzero
      have hmod : bitAt (128 + more - 128) = bitAt (more % 128) := by
        unfold bitAt
        rw [Nat.add_sub_cancel_left, Nat.mod_mod]
      rw [hmod, toNat_bitAt (Nat.mod_lt _ (by decide))] at hone
      exact absurd hone (Nat.two_pow_pos _).ne'
    have hzero : ∀ factor, factor * 2 ^ (128 + more) % 2 ^ 128 = 0 := fun factor => by
      rw [pow_add, Nat.mul_left_comm]
      exact Nat.mul_mod_right _ _
    refine ⟨?_, iff_of_true (fun hnone => hbit (BitVec.or_eq_zero_iff.mp hnone).2) ?_⟩
    · rw [hzero, hlow, pow_succ, mul_comm _ 2, ← mul_assoc, hzero]
    · calc 2 ^ 128 ≤ 2 ^ (128 + more) := Nat.pow_le_pow_right (by decide) (by omega)
        _ ≤ (2 * quot + 1) * 2 ^ (128 + more) := Nat.le_mul_of_pos_left _ (by omega)
  case isFalse hi =>
    have hdiv := setBit_div quot (i := i) (by omega)
    refine ⟨toNat_setBit (by omega) hlow, hhigh.trans ?_⟩
    omega

theorem Records.clamp {words : U128 × U128} {total : Nat} (h : Records words total) :
    (clampQuotient words).toNat = min total (2 ^ 128 - 1) := by
  obtain ⟨hlow, hhigh⟩ := h
  have hmax : maxU128.toNat = 2 ^ 128 - 1 := by decide
  unfold clampQuotient
  split
  case isTrue hne =>
    have hbig := hhigh.mp hne
    omega
  case isFalse hne =>
    have hsmall : ¬ 2 ^ 128 ≤ total := fun h => hne (hhigh.mpr h)
    omega

theorem searchQuotient_eq {fits : Nat → Bool} {num den low high : Nat} (hden : 0 < den)
    (hfits : ∀ mid ≤ high, fits mid = true ↔ den * mid ≤ num) (hle : low ≤ high)
    (hlow : low ≤ num / den) : searchQuotient fits low high = min (num / den) high := by
  have htest : ∀ mid ≤ high, fits mid = true ↔ mid ≤ num / den := fun mid hmid => by
    rw [hfits mid hmid, Nat.le_div_iff_mul_le hden, mul_comm]
  clear hfits
  fun_induction searchQuotient fits low high with
  | case1 low high hlt mid hpass ih =>
    exact ih (by omega) ((htest mid (by omega)).mp hpass) htest
  | case2 low high hlt mid hfails ih =>
    have hless : num / den < mid := Nat.lt_of_not_le fun h => hfails ((htest mid (by omega)).mpr h)
    rw [ih (by omega) hlow fun mid hmid => htest mid (by omega)]
    omega
  | case3 low high hlt => omega

theorem U256.value_of_hi_eq_zero {a : U256} (hhi : a.hi = 0) : a.value = a.lo.toNat := by
  unfold U256.value
  rw [hhi]
  exact Nat.zero_add _

theorem trialProduct_iff (num den : U256) {mid : Nat} (hmid : mid < 2 ^ 128) :
    (U512.mulU256 den ⟨0, .ofNat 128 mid⟩).le ⟨.zero, num⟩ = true ↔
      den.value * mid ≤ num.value := by
  have hfactor : (⟨0, .ofNat 128 mid⟩ : U256).value = mid := by
    rw [U256.value_of_hi_eq_zero rfl, BitVec.toNat_ofNat, Nat.mod_eq_of_lt hmid]
  have hnum : (⟨.zero, num⟩ : U512).value = num.value := by
    unfold U512.value
    rw [U256.value_zero, Nat.zero_mul, zero_add]
  rw [U512.le_iff, U512.value_mulU256, hfactor, hnum]

theorem U256.isZero_iff : a.isZero = true ↔ a.value = 0 := by
  unfold U256.isZero U256.value
  rw [Bool.and_eq_true, decide_eq_true_eq, decide_eq_true_eq, ← BitVec.toNat_inj,
    ← BitVec.toNat_inj]
  simp only [BitVec.ofNat_eq_ofNat, BitVec.toNat_ofNat, Nat.zero_mod]
  omega

theorem u256DivFloor_eq (num : U256) {den : U256} (hden : 0 < den.value) :
    u256DivFloor num den = min (num.value / den.value) (2 ^ 64 - 1) := by
  unfold u256DivFloor
  rw [if_neg fun hzero => by rw [U256.isZero_iff] at hzero; omega]
  split
  case isTrue hhi =>
    rw [U256.value_of_hi_eq_zero hhi] at hden ⊢
    rw [U256.toNat_divU128 num hden]
    omega
  case isFalse _ =>
    split
    case isTrue hle =>
      rw [U256.le_iff] at hle
      split
      case isTrue hsame => rw [hsame, Nat.div_self hden]; rfl
      case isFalse hne =>
        have hless := lt_of_le_of_ne hle fun h => hne (U256.value_inj h)
        rw [Nat.div_eq_of_lt hless]
        rfl
    case isFalse hgt =>
      rw [U256.le_iff, not_le] at hgt
      exact searchQuotient_eq hden (fun mid hmid => trialProduct_iff num den (by omega))
        (by decide) ((Nat.one_le_div_iff hden).mpr hgt.le)

section

variable {Rem : Type} (value : Rem → Nat) (half : Nat) {num den : Nat}

/-- The long division with a remainder of many words. -/
def WideDivision (num den i : Nat) (state : Rem × U128 × U128) : Prop :=
  ∃ quot, Dividing half 512 num den i (value state.1) quot ∧ Records state.2 (quot * 2 ^ i)

/-- What the words of the quotient hold after the last bit. -/
theorem wideDivision_spec (step : Rem × U128 × U128 → Nat → Rem × U128 × U128)
    (hstep : ∀ rem words i, ∃ shifted taken : Rem,
      value shifted = (2 * value rem + (num.testBit i).toNat) % (2 * half) ∧
      (den ≤ value shifted → value taken = value shifted - den) ∧
      step (rem, words) i =
        if den ≤ value shifted then (taken, setQuotientBit i words) else (shifted, words))
    (hden : 0 < den) (hhalf : den ≤ 2 * half) (hnum : num < 2 ^ 512) {zero : Rem}
    (hzero : value zero = 0) (hsmall : num / den < 2 ^ 64) :
    (clampQuotient ((List.range 512).reverse.foldl step (zero, (0, 0))).2).toNat ≤ num / den ∧
      ((clampQuotient ((List.range 512).reverse.foldl step (zero, (0, 0))).2).toNat = num / den ↔
        KeepsBits half 512 num den 0) := by
  have htop : num / 2 ^ 512 = value zero := by rw [hzero, Nat.div_eq_of_lt hnum]
  have hstart : WideDivision value half num den 512 (zero, ((0 : U128), (0 : U128))) :=
    ⟨0, htop ▸ dividing_start (by omega), by rw [Nat.zero_mul]; exact ⟨rfl, by simp⟩⟩
  have hround : ∀ i < 512, ∀ state, WideDivision value half num den (i + 1) state →
      WideDivision value half num den i (step state i) := by
    rintro i hi ⟨rem, words⟩ ⟨quot, hdividing, hrecords⟩
    obtain ⟨shifted, taken, hshifted, htaken, heq⟩ := hstep rem words i
    have hnext := hdividing.step hi hhalf
    rw [← hshifted] at hnext
    rw [heq]
    split
    next hfits => exact ⟨2 * quot + 1, (htaken hfits).symm ▸ hnext.1 hfits, hrecords.set⟩
    next hless =>
      refine ⟨2 * quot, hnext.2 (Nat.lt_of_not_le hless), ?_⟩
      rwa [mul_comm 2 quot, mul_assoc, ← pow_succ']
  obtain ⟨quot, hdividing, hrecords⟩ := foldl_bits _ 512 hround hstart
  obtain ⟨hle, hexact⟩ := hdividing.quotient hhalf
  rw [pow_zero] at hrecords
  rw [hrecords.clamp, ← hexact]
  omega

end

theorem U512.value_lt (a : U512) : a.value < 2 ^ 512 := by
  have hhi := a.hi.value_lt
  have hlo := a.lo.value_lt
  unfold U512.value
  omega

theorem takes_iff {Wide : Type} [DecidableEq Wide] {value : Wide → Nat}
    (hinj : ∀ {a b}, value a = value b → a = b) {le : Wide → Wide → Bool}
    (hle : ∀ a b, le a b = true ↔ value a ≤ value b) (rem d : Wide) :
    (!le rem d || decide (rem = d)) = true ↔ value d ≤ value rem := by
  rw [Bool.or_eq_true, Bool.not_eq_true', decide_eq_true_eq, ← Bool.not_eq_true, hle]
  constructor
  · rintro (hgt | rfl) <;> omega
  · intro hfits
    rcases Nat.eq_or_lt_of_le hfits with hsame | hlt
    · exact .inr (hinj hsame.symm)
    · exact .inl (by omega)

theorem U512.divU256_spec (a : U512) {d : U256} (hd : 0 < d.value)
    (hsmall : a.value / d.value < 2 ^ 64) :
    (a.divU256 d).toNat ≤ a.value / d.value ∧
      ((a.divU256 d).toNat = a.value / d.value ↔
        (2 ^ 256 ≤ a.value → KeepsBits (2 ^ 255) 512 a.value d.value 0)) := by
  have hlo := a.lo.value_lt
  unfold U512.divU256
  rw [if_neg fun hzero => by rw [U256.isZero_iff] at hzero; omega]
  split
  case isTrue hlow =>
    have hvalue : a.value = a.lo.value := by
      unfold U512.value
      rw [(U256.isZero_iff _).mp hlow, Nat.zero_mul, zero_add]
    rw [hvalue] at hsmall ⊢
    have hexact : (if d.hi = 0 then a.lo.divU128 d.lo else .ofNat 128 (u256DivFloor a.lo d) :
        U128).toNat = a.lo.value / d.value := by
      split
      case isTrue hhi =>
        rw [U256.value_of_hi_eq_zero hhi] at hd hsmall ⊢
        rw [U256.toNat_divU128 _ hd]
        omega
      case isFalse _ =>
        rw [u256DivFloor_eq _ hd, min_eq_left (by omega), BitVec.toNat_ofNat]
        exact Nat.mod_eq_of_lt (by omega)
    exact ⟨hexact.le, iff_of_true hexact fun hlarge => absurd hlarge (by omega)⟩
  case isFalse hhigh =>
    have hlarge : 2 ^ 256 ≤ a.value := by
      rw [U256.isZero_iff] at hhigh
      unfold U512.value
      omega
    have hlimit := d.value_lt
    rw [imp_iff_right hlarge]
    refine wideDivision_spec U256.value (2 ^ 255) _ (fun rem words i => ?_) hd (by omega)
      a.value_lt U256.value_zero hsmall
    refine ⟨U256.shl1 rem (a.bit i), (U256.shl1 rem (a.bit i)).checkedSub d, ?_,
      U256.value_checkedSub, ?_⟩
    · rw [U256.value_shl1, U512.bit_eq, ← pow_succ']
    · simp only [takes_iff U256.value_inj U256.le_iff]

/-- A division by 512 bits loses no bit. -/
def ExactDivision (num den : Nat) : Prop :=
  den < 2 ^ 256 → 2 ^ 256 ≤ num → KeepsBits (2 ^ 255) 512 num den 0

/-- **Division by 512 bits**, for quotients of 64 bits and divisors with a bit to spare. -/
theorem u512DivU512_spec (num : U512) {den : U512} (hden : 0 < den.value)
    (hspare : den.value ≤ 2 ^ 511) (hsmall : num.value / den.value < 2 ^ 64) :
    (u512DivU512 num den).toNat ≤ num.value / den.value ∧
      ((u512DivU512 num den).toNat = num.value / den.value ↔
        ExactDivision num.value den.value) := by
  have hlo := den.lo.value_lt
  unfold u512DivU512 ExactDivision
  rw [if_neg fun hzero => by rw [hzero, U512.value_zero] at hden; omega]
  split
  case isTrue hle =>
    rw [U512.le_iff] at hle
    have hexact : (if num = den then 1 else 0 : U128).toNat = num.value / den.value := by
      split
      case isTrue hsame =>
        rw [hsame, Nat.div_self hden]
        rfl
      case isFalse hne =>
        rw [Nat.div_eq_of_lt (lt_of_le_of_ne hle fun h => hne (U512.value_inj h))]
        rfl
    exact ⟨hexact.le, iff_of_true hexact fun hless hlarge => absurd hle (by omega)⟩
  case isFalse _ =>
    split
    case isTrue hhi =>
      have hvalue : den.value = den.lo.value := by
        rw [U512.value, hhi, U256.value_zero, Nat.zero_mul, zero_add]
      rw [hvalue] at hden hsmall ⊢
      rw [imp_iff_right hlo]
      exact U512.divU256_spec num hden hsmall
    case isFalse hhi =>
      have hwide : 2 ^ 256 ≤ den.value := by
        have hne : den.hi.value ≠ 0 := fun h => hhi (U256.value_inj (h.trans rfl))
        unfold U512.value
        omega
      have hkeeps : KeepsBits (2 ^ 511) 512 num.value den.value 0 := fun j _ _ =>
        (Nat.mod_lt _ hden).trans_le hspare
      have hvacuous : den.value < 2 ^ 256 → 2 ^ 256 ≤ num.value →
          KeepsBits (2 ^ 255) 512 num.value den.value 0 := fun hless => absurd hless (by omega)
      rw [iff_true_intro hvacuous, ← iff_true_intro hkeeps]
      refine wideDivision_spec U512.value (2 ^ 511) _ (fun rem words i => ?_) hden (by omega)
        num.value_lt U512.value_zero hsmall
      refine ⟨U512.shl1 rem (num.bit i), (U512.shl1 rem (num.bit i)).sub den, ?_,
        U512.value_sub, ?_⟩
      · rw [U512.value_shl1, U512.bit_eq, ← pow_succ']
      · simp only [takes_iff U512.value_inj U512.le_iff]

end Yggdrasil.Ledger.Rewards
