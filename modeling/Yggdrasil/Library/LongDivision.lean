import Mathlib

/-!
# Division bit by bit

Division of naturals from the highest bit down, in a register that holds remainders below
`2 * half`.  A remainder that loses its highest bit when it is doubled makes the quotient too small,
never too large, so that the quotient is exact if and only if no bit is lost.
-/

namespace Yggdrasil.Library

universe u

/-- No remainder from bit `i` on is so large that doubling it loses a bit. -/
def KeepsBits (half bits num den i : Nat) : Prop :=
  ∀ j < bits, i ≤ j → num / 2 ^ (j + 1) % den < half

/-- The quotient and the remainder of the bits that have come down, up to what has been lost. -/
def Dividing (half bits num den i rem quot : Nat) : Prop :=
  rem < den ∧ ∃ lost, num / 2 ^ i = quot * den + rem + lost ∧
    (lost = 0 ↔ KeepsBits half bits num den i) ∧ (lost ≠ 0 → 2 * half ≤ lost)

section

variable {half bits num den i rem quot : Nat}

theorem dividing_start (hsmall : num / 2 ^ bits < den) :
    Dividing half bits num den bits (num / 2 ^ bits) 0 :=
  ⟨hsmall, 0, by omega, iff_of_true rfl fun j hj hle => absurd hj (not_lt.mpr hle),
    fun h => absurd rfl h⟩

theorem keepsBits_step (hi : i < bits) : KeepsBits half bits num den i ↔
    KeepsBits half bits num den (i + 1) ∧ num / 2 ^ (i + 1) % den < half := by
  constructor
  · exact fun hkeeps => ⟨fun j hj hle => hkeeps j hj (by omega), hkeeps i hi le_rfl⟩
  · rintro ⟨hlater, hhere⟩ j hj hle
    obtain rfl | hlt := Nat.eq_or_lt_of_le hle
    · exact hhere
    · exact hlater j hj hlt

theorem div_two_pow (num i : Nat) :
    num / 2 ^ i = 2 * (num / 2 ^ (i + 1)) + (num.testBit i).toNat := by
  have hhalf : num / 2 ^ (i + 1) = num / 2 ^ i / 2 := by
    rw [pow_succ, Nat.div_div_eq_div_mul]
  rw [Nat.testBit_eq_decide_div_mod_eq]
  rcases Nat.mod_two_eq_zero_or_one (num / 2 ^ i) with hbit | hbit
  · simp only [hbit]
    norm_num
    omega
  · simp only [hbit]
    norm_num
    omega

/-- Bring a bit down and take the divisor out if it fits. -/
theorem Dividing.step (h : Dividing half bits num den (i + 1) rem quot) (hi : i < bits)
    (hden : den ≤ 2 * half) :
    let shifted := (2 * rem + (num.testBit i).toNat) % (2 * half)
    (den ≤ shifted → Dividing half bits num den i (shifted - den) (2 * quot + 1)) ∧
      (shifted < den → Dividing half bits num den i shifted (2 * quot)) := by
  obtain ⟨hrem, lost, haccount, hlost, hlarge⟩ := h
  have hbit := Bool.toNat_le (num.testBit i)
  have hnext := div_two_pow num i
  rw [haccount] at hnext
  intro shifted
  have hshifted : shifted = 2 * rem + (num.testBit i).toNat ∧ rem < half ∨
      shifted + 2 * half = 2 * rem + (num.testBit i).toNat ∧ half ≤ rem := by
    by_cases hfits : rem < half
    · exact .inl ⟨Nat.mod_eq_of_lt (by omega), hfits⟩
    · refine .inr ⟨?_, by omega⟩
      show _ % _ + _ = _
      rw [Nat.mod_eq_sub_mod (by omega), Nat.mod_eq_of_lt (by omega)]
      omega
  -- the remainder is the true one as long as nothing is lost
  have htrue : lost = 0 → num / 2 ^ (i + 1) % den = rem := by
    rintro rfl
    rw [haccount, add_zero, Nat.mul_add_mod_self_right, Nat.mod_eq_of_lt hrem]
  have hkeeps : ∀ more, (more = 0 ↔ lost = 0 ∧ rem < half) →
      (more = 0 ↔ KeepsBits half bits num den i) := by
    intro more hmore
    rw [hmore, keepsBits_step hi, ← hlost]
    exact and_congr_right fun hzero => by rw [htrue hzero]
  refine ⟨fun hfits => ⟨by omega, ?_⟩, fun hless => ⟨hless, ?_⟩⟩
  · refine ⟨2 * lost + (2 * rem + (num.testBit i).toNat - shifted), ?_, hkeeps _ ?_, ?_⟩
    · rw [hnext, add_mul, one_mul, mul_assoc]
      omega
    · omega
    · omega
  · refine ⟨2 * lost + (2 * rem + (num.testBit i).toNat - shifted), ?_, hkeeps _ ?_, ?_⟩
    · rw [hnext, mul_assoc]
      omega
    · omega
    · omega

/-- **The quotient is never too large, and exact if and only if no bit is lost.** -/
theorem Dividing.quotient (h : Dividing half bits num den 0 rem quot) (hden : den ≤ 2 * half) :
    quot ≤ num / den ∧ (quot = num / den ↔ KeepsBits half bits num den 0) := by
  obtain ⟨hrem, lost, haccount, hlost, hlarge⟩ := h
  have hpos : 0 < den := by omega
  rw [pow_zero, Nat.div_one] at haccount
  rw [← hlost]
  by_cases hzero : lost = 0
  · have hexact : num / den = quot := by
      rw [haccount, hzero, add_zero, mul_comm, Nat.mul_add_div hpos, Nat.div_eq_of_lt hrem,
        add_zero]
    exact ⟨hexact.ge, iff_of_true hexact.symm hzero⟩
  · have hmore : quot + 1 ≤ num / den := by
      rw [Nat.le_div_iff_mul_le hpos, add_mul]
      have := hlarge hzero
      omega
    exact ⟨by omega, iff_of_false (by omega) hzero⟩

end

/-- What every step from a bit to the bit below keeps holds after the last bit. -/
theorem foldl_bits {State : Type u} (holds : Nat → State → Prop) {step : State → Nat → State}
    (width : Nat) (hstep : ∀ i < width, ∀ state, holds (i + 1) state → holds i (step state i))
    {state : State} (hstart : holds width state) :
    holds 0 ((List.range width).reverse.foldl step state) := by
  induction width generalizing state with
  | zero => exact hstart
  | succ width ih =>
    rw [List.range_succ, List.reverse_append, List.reverse_singleton, List.singleton_append]
    refine ih (fun i hi => hstep i (Nat.lt_succ_of_lt hi)) ?_
    exact hstep width (Nat.lt_succ_self width) state hstart

end Yggdrasil.Library
