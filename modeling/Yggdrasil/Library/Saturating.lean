import Mathlib

/-!
# Saturating arithmetic on 64-bit words
-/

namespace Yggdrasil.Library

/-- Addition that stops at the largest word. -/
def saturatingAdd (a b : UInt64) : UInt64 :=
  if a.toNat + b.toNat < 2 ^ 64 then a + b else 18446744073709551615

/-- Multiplication that stops at the largest word. -/
def saturatingMul (a b : UInt64) : UInt64 :=
  if a.toNat * b.toNat < 2 ^ 64 then a * b else 18446744073709551615

/-- Subtraction that stops at zero. -/
def saturatingSub (a b : UInt64) : UInt64 := if b ≤ a then a - b else 0

/-- Add a signed word to an unsigned one, saturating at both ends. -/
def saturatingAddSigned (a : UInt64) (b : Int64) : UInt64 :=
  if 0 ≤ b.toInt then saturatingAdd a (.ofNat b.toInt.toNat)
  else saturatingSub a (.ofNat b.toInt.natAbs)

/-- Bring an integer into the range of signed words. -/
def clampInt64 (n : Int) : Int64 := .ofInt (max (-2 ^ 63) (min n (2 ^ 63 - 1)))

def saturatingAddInt64 (a b : Int64) : Int64 := clampInt64 (a.toInt + b.toInt)

def saturatingSubInt64 (a b : Int64) : Int64 := clampInt64 (a.toInt - b.toInt)

theorem toNat_saturatingAdd (a b : UInt64) :
    (saturatingAdd a b).toNat = min (a.toNat + b.toNat) (2 ^ 64 - 1) := by
  unfold saturatingAdd
  split
  · rename_i hfits
    rw [UInt64.toNat_add]
    omega
  · have hmax : (18446744073709551615 : UInt64).toNat = 2 ^ 64 - 1 := rfl
    rw [hmax]
    omega

theorem toNat_saturatingSub (a b : UInt64) : (saturatingSub a b).toNat = a.toNat - b.toNat := by
  unfold saturatingSub
  split
  · rename_i hle
    rw [UInt64.toNat_sub_of_le _ _ hle]
  · rename_i hlt
    have hlt' : a.toNat < b.toNat := (UInt64.not_le.mp hlt)
    have hzero : (0 : UInt64).toNat = 0 := rfl
    omega

variable (words : List UInt64) (start : UInt64)

/-- A saturating sum is the sum, up to the largest word. -/
theorem toNat_foldl_saturatingAdd :
    (words.foldl saturatingAdd start).toNat =
      min (start.toNat + (words.map UInt64.toNat).sum) (2 ^ 64 - 1) := by
  induction words generalizing start with
  | nil =>
    have hword := start.toNat_lt
    rw [List.foldl_nil, List.map_nil, List.sum_nil]
    omega
  | cons word rest ih =>
    rw [List.foldl_cons, ih, toNat_saturatingAdd, List.map_cons, List.sum_cons]
    omega

/-- A wrapping sum is the sum modulo `2 ^ 64`. -/
theorem toNat_foldl_add :
    (words.foldl (· + ·) start).toNat = (start.toNat + (words.map UInt64.toNat).sum) % 2 ^ 64 := by
  induction words generalizing start with
  | nil =>
    have hword := start.toNat_lt
    rw [List.foldl_nil, List.map_nil, List.sum_nil]
    omega
  | cons word rest ih =>
    rw [List.foldl_cons, ih, UInt64.toNat_add, List.map_cons, List.sum_cons]
    omega

/-! ## What saturation changes -/

/-- How far a 64-bit word that saturates is from a number. -/
def wordError (n : Int) : Int := max 0 (min n (2 ^ 64 - 1)) - n

theorem wordError_of_fits {n : Int} (hnonneg : 0 ≤ n) (hfits : n < 2 ^ 64) : wordError n = 0 := by
  unfold wordError
  omega

theorem natCast_saturatingAdd (a b : UInt64) :
    ((saturatingAdd a b).toNat : Int) = a.toNat + b.toNat + wordError (a.toNat + b.toNat) := by
  rw [toNat_saturatingAdd]
  unfold wordError
  omega

theorem natCast_saturatingSub (a b : UInt64) :
    ((saturatingSub a b).toNat : Int) = a.toNat - b.toNat + wordError (a.toNat - b.toNat) := by
  have hword := a.toNat_lt
  rw [toNat_saturatingSub]
  unfold wordError
  omega

theorem natCast_saturatingAddSigned (a : UInt64) (b : Int64) :
    ((saturatingAddSigned a b).toNat : Int) = a.toNat + b.toInt + wordError (a.toNat + b.toInt) := by
  have hlow := b.le_toInt
  have hhigh := b.toInt_lt
  unfold saturatingAddSigned
  split
  · have hword : (UInt64.ofNat b.toInt.toNat).toNat = b.toInt.toNat :=
      UInt64.toNat_ofNat_of_lt' (by simp only [UInt64.size]; omega)
    rw [natCast_saturatingAdd, hword]
    have hcast : (b.toInt.toNat : Int) = b.toInt := by omega
    rw [hcast]
  · have hword : (UInt64.ofNat b.toInt.natAbs).toNat = b.toInt.natAbs :=
      UInt64.toNat_ofNat_of_lt' (by simp only [UInt64.size]; omega)
    rw [natCast_saturatingSub, hword]
    have hcast : (b.toInt.natAbs : Int) = -b.toInt := by omega
    rw [hcast, sub_neg_eq_add]

/-- Several additions saturate like one. -/
theorem natCast_foldl_saturatingAdd :
    ((words.foldl saturatingAdd start).toNat : Int) =
      start.toNat + (words.map UInt64.toNat).sum +
        wordError (start.toNat + (words.map UInt64.toNat).sum) := by
  rw [toNat_foldl_saturatingAdd]
  unfold wordError
  omega

/-- Several subtractions saturate like one. -/
theorem toNat_foldl_saturatingSub :
    (words.foldl saturatingSub start).toNat = start.toNat - (words.map UInt64.toNat).sum := by
  induction words generalizing start with
  | nil => simp
  | cons word rest ih =>
    rw [List.foldl_cons, ih, toNat_saturatingSub, List.map_cons, List.sum_cons]
    omega

end Yggdrasil.Library
