import Mathlib

/-!
# Fractions of naturals kept as two integers

Deterministic integer code that computes with rationals keeps a numerator and a denominator
and reduces them by their greatest common divisor now and then.  This module gives that
representation, with a positive denominator as part of the type, and the rational number each
operation denotes.
-/

namespace Yggdrasil.Library

/-- A possibly unreduced fraction of naturals. -/
structure Fraction where
  num : Nat
  den : Nat
  den_pos : 0 < den

namespace Fraction

/-- The rational number a fraction denotes. -/
def value (a : Fraction) : ℚ := a.num / a.den

/-- Product of numerators over product of denominators. -/
def mul (a b : Fraction) : Fraction where
  num := a.num * b.num
  den := a.den * b.den
  den_pos := Nat.mul_pos a.den_pos b.den_pos

/-- Sum over the product of the denominators. -/
def add (a b : Fraction) : Fraction where
  num := a.num * b.den + b.num * a.den
  den := a.den * b.den
  den_pos := Nat.mul_pos a.den_pos b.den_pos

/-- Difference over the product of the denominators, if it is not negative. -/
def sub? (a b : Fraction) : Option Fraction :=
  if a.num * b.den ≥ b.num * a.den then
    some
      { num := a.num * b.den - b.num * a.den
        den := a.den * b.den
        den_pos := Nat.mul_pos a.den_pos b.den_pos }
  else none

/-- Divide both sides by their greatest common divisor. -/
def reduce (a : Fraction) : Fraction :=
  if Nat.gcd a.num a.den ≠ 0 ∧ Nat.gcd a.num a.den ≠ 1 then
    { num := a.num / Nat.gcd a.num a.den
      den := a.den / Nat.gcd a.num a.den
      den_pos := Nat.div_gcd_pos_of_pos_right _ a.den_pos }
  else a

variable (a : Fraction)

theorem den_ne_zero : (a.den : ℚ) ≠ 0 := Nat.cast_ne_zero.mpr a.den_pos.ne'

theorem value_nonneg : 0 ≤ a.value := by
  unfold value
  positivity

@[simp] theorem value_mul (b : Fraction) : (a.mul b).value = a.value * b.value := by
  simp only [value, mul, Nat.cast_mul]
  field_simp

@[simp] theorem value_add (b : Fraction) : (a.add b).value = a.value + b.value := by
  have ha := a.den_ne_zero
  have hb := b.den_ne_zero
  simp only [value, add, Nat.cast_mul, Nat.cast_add]
  field_simp

/-- Reducing does not change the number. -/
@[simp] theorem value_reduce : a.reduce.value = a.value := by
  unfold reduce
  split
  · rename_i hdivisor
    have hne : ((Nat.gcd a.num a.den : Nat) : ℚ) ≠ 0 := Nat.cast_ne_zero.mpr hdivisor.1
    simp only [value]
    rw [Nat.cast_div (Nat.gcd_dvd_left _ _) hne, Nat.cast_div (Nat.gcd_dvd_right _ _) hne]
    field_simp
  · rfl

/-- A natural exceeds a fraction exactly when it does after clearing the denominator. -/
theorem value_lt_natCast_iff (n : Nat) : a.value < n ↔ n * a.den > a.num := by
  have hpos : (0 : ℚ) < a.den := Nat.cast_pos.mpr a.den_pos
  rw [value, div_lt_iff₀ hpos]
  norm_cast

/-- A difference exists exactly when it is not negative, and then it is the difference. -/
theorem sub?_eq_some {a b c : Fraction} (hsub : a.sub? b = some c) :
    c.value = a.value - b.value := by
  have ha := a.den_ne_zero
  have hb := b.den_ne_zero
  unfold sub? at hsub
  split at hsub
  · rename_i hle
    obtain rfl := Option.some.inj hsub
    simp only [value]
    rw [Nat.cast_sub hle]
    push_cast
    field_simp
  · cases hsub

theorem sub?_eq_none {a b : Fraction} (hsub : a.sub? b = none) : a.value < b.value := by
  have ha : (0 : ℚ) < a.den := Nat.cast_pos.mpr a.den_pos
  have hb : (0 : ℚ) < b.den := Nat.cast_pos.mpr b.den_pos
  unfold sub? at hsub
  split at hsub
  · cases hsub
  · rename_i hlt
    rw [value, value, div_lt_div_iff₀ ha hb]
    exact_mod_cast not_le.mp hlt

end Fraction

end Yggdrasil.Library
