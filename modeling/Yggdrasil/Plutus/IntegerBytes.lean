import Yggdrasil.Ledger.PlutusDataCodec

/-!
# Integers as byte strings

`integer_to_bytestring` and `bytestring_to_integer` of `crates/plutus/src/builtins.rs`.  They are
inverse to each other for both endiannesses.  The limit of 8192 bytes is checked for a requested
length only: without one, an integer of any size is converted.
-/

namespace Yggdrasil.Plutus

open Ledger Ledger.PlutusData

/-- Why a builtin fails. -/
inductive MachineError where
  | builtinError (builtin message : String)
deriving DecidableEq, Repr

/-- Bytes in the order of an endianness, given the most significant one first. -/
def orient (littleEndian : Bool) (bytes : Bytes) : Bytes :=
  if littleEndian then bytes.reverse else bytes

/-- The bytes of an integer, as few as possible or as many as requested. -/
def integerToBytestring (littleEndian : Bool) (requiredLen value : Int) :
    Except MachineError Bytes :=
  if value < 0 then .error (.builtinError "integerToByteString" "negative integer")
  else if requiredLen < 0 then
    .error (.builtinError "integerToByteString" s!"negative required length: {requiredLen}")
  else if 8192 < requiredLen then
    .error (.builtinError "integerToByteString" s!"required length too large: {requiredLen}")
  else
    let req := requiredLen.toNat
    if value = 0 then .ok (if req = 0 then [] else List.replicate req 0)
    else
      let bigEndian := toBytesBe value.toNat
      let needed := bigEndian.length
      if 0 < req ∧ req < needed then
        .error (.builtinError "integerToByteString"
          s!"integer requires {needed} bytes but only {req} allowed")
      else
        let result := if 0 < req then List.replicate (req - needed) 0 ++ bigEndian else bigEndian
        .ok (orient littleEndian result)

/-- The integer that bytes stand for. -/
def bytestringToInteger (littleEndian : Bool) (bs : Bytes) : Int :=
  if bs.isEmpty then 0 else natOfBytesBe (orient littleEndian bs)

/-- The number of bytes that a number needs; zero needs none. -/
def minimalLength (value : Nat) : Nat := (Nat.digits 256 value).length

/-- The bytes of a number, filled up with leading zeros. -/
def paddedBytes (length value : Nat) : Bytes :=
  List.replicate (length - minimalLength value) 0 ++
    ((Nat.digits 256 value).map UInt8.ofNat).reverse

theorem integerToBytestring_eq_ok_iff {littleEndian : Bool} {requiredLen value : Int}
    {bytes : Bytes} :
    integerToBytestring littleEndian requiredLen value = .ok bytes ↔
      0 ≤ value ∧ 0 ≤ requiredLen ∧ requiredLen ≤ 8192 ∧
        (requiredLen = 0 ∨ minimalLength value.toNat ≤ requiredLen.toNat) ∧
        orient littleEndian (paddedBytes requiredLen.toNat value.toNat) = bytes := by
  unfold integerToBytestring
  by_cases hbounds : 0 ≤ value ∧ 0 ≤ requiredLen ∧ requiredLen ≤ 8192
  · obtain ⟨hvalue, hlen, hlimit⟩ := hbounds
    lift value to ℕ using hvalue
    lift requiredLen to ℕ using hlen with req
    rw [if_neg (by omega), if_neg (by omega), if_neg (by omega)]
    simp only [Int.toNat_natCast, Nat.cast_nonneg, hlimit, true_and, Nat.cast_eq_zero]
    by_cases hzero : value = 0
    · subst hzero
      cases req <;> simp [orient, paddedBytes, minimalLength]
    · have hneeded : (toBytesBe value).length = minimalLength value := by
        simp [toBytesBe, hzero, minimalLength]
      have hpadded : (if 0 < req then List.replicate (req - minimalLength value) 0 ++ toBytesBe value
          else toBytesBe value) = paddedBytes req value := by
        cases req <;> simp [toBytesBe, hzero, paddedBytes]
      rw [if_neg hzero, hneeded, hpadded]
      split
      next hmore => exact iff_of_false nofun fun hok => by omega
      next hfits => simp [show req = 0 ∨ minimalLength value ≤ req by omega]
  · refine iff_of_false ?_ fun hok => hbounds ⟨hok.1, hok.2.1, hok.2.2.1⟩
    split_ifs <;> first | omega | simp

theorem natOfBytesBe_paddedBytes (length value : Nat) :
    natOfBytesBe (paddedBytes length value) = value := by
  have hdigits : natOfBytesBe ((Nat.digits 256 value).map UInt8.ofNat).reverse = value := by
    have hback := natOfBytesBe_toBytesBe value
    unfold toBytesBe at hback
    split at hback
    next hzero => rw [hzero]; rfl
    next => exact hback
  unfold paddedBytes
  induction length - minimalLength value with
  | zero => exact hdigits
  | succ count ih => exact ih

theorem bytestringToInteger_orient (littleEndian : Bool) (bytes : Bytes) :
    bytestringToInteger littleEndian (orient littleEndian bytes) = natOfBytesBe bytes := by
  cases littleEndian <;> cases bytes <;> simp [bytestringToInteger, orient, natOfBytesBe]

/-- The conversions are inverse, and the first one succeeds exactly for what fits. -/
structure Converts (littleEndian : Bool) (requiredLen value : Int) : Prop where
  succeeds : (∃ bytes, integerToBytestring littleEndian requiredLen value = .ok bytes) ↔
    0 ≤ value ∧ 0 ≤ requiredLen ∧ requiredLen ≤ 8192 ∧
      minimalLength value.toNat ≤ if requiredLen = 0 then 8192 else requiredLen.toNat
  returns : ∀ bytes, integerToBytestring littleEndian requiredLen value = .ok bytes →
    bytes.length = (if requiredLen = 0 then minimalLength value.toNat else requiredLen.toNat) ∧
      bytestringToInteger littleEndian bytes = value

/-- **The conversions have the limits of the specification if and only if a length is requested, or
the integer needs at most 8192 bytes or is negative.** -/
theorem converts_iff (littleEndian : Bool) (requiredLen value : Int) :
    Converts littleEndian requiredLen value ↔
      requiredLen ≠ 0 ∨ minimalLength value.toNat ≤ 8192 := by
  have hsucceeds : (∃ bytes, integerToBytestring littleEndian requiredLen value = .ok bytes) ↔
      0 ≤ value ∧ 0 ≤ requiredLen ∧ requiredLen ≤ 8192 ∧
        (requiredLen = 0 ∨ minimalLength value.toNat ≤ requiredLen.toNat) := by
    simp [integerToBytestring_eq_ok_iff]
  constructor
  · intro hconverts
    by_contra hlong
    have hboth := hsucceeds.symm.trans hconverts.succeeds
    have hneeds : minimalLength 0 = 0 := rfl
    rcases Int.lt_or_le value 0 with hnegative | hvalue
    · rw [Int.toNat_of_nonpos hnegative.le, hneeds] at hlong
      omega
    · rw [if_pos (by omega)] at hboth
      omega
  · intro hlimit
    refine ⟨hsucceeds.trans ?_, fun bytes hok => ?_⟩
    · split_ifs <;> omega
    · obtain ⟨hvalue, -, -, hfits, rfl⟩ := integerToBytestring_eq_ok_iff.mp hok
      rw [bytestringToInteger_orient, natOfBytesBe_paddedBytes, Int.toNat_of_nonneg hvalue]
      refine ⟨?_, rfl⟩
      have hlength : (paddedBytes requiredLen.toNat value.toNat).length =
          max requiredLen.toNat (minimalLength value.toNat) := by
        simp [paddedBytes, minimalLength]
        omega
      rw [orient, apply_ite List.length, List.length_reverse, ite_self, hlength]
      split <;> omega

/-- **An integer of 8193 bytes is converted.** -/
theorem longInteger_converted :
    ∃ bytes, integerToBytestring false 0 (256 ^ 8192 : Nat) = .ok bytes ∧
      8192 < minimalLength (256 ^ 8192) := by
  refine ⟨_, integerToBytestring_eq_ok_iff.mpr ⟨by positivity, le_rfl, by decide, .inl rfl, rfl⟩, ?_⟩
  rw [minimalLength, Nat.length_digits _ _ (by decide) (by positivity), Nat.log_pow (by decide)]
  decide

end Yggdrasil.Plutus
