import Mathlib

/-!
# Wide unsigned integers of the reward formula

`U256` and `U512` as pairs of halves (`rewards.rs`), with the carries and borrows of the source.
A shift of a 128-bit word by 128 or more wraps its count, as it does without overflow checks.
-/

namespace Yggdrasil.Ledger.Rewards

abbrev U128 := BitVec 128

/-- The largest 128-bit word. -/
def maxU128 : U128 := BitVec.allOnes 128

def overflowingAdd (a b : U128) : U128 × Bool := (a + b, BitVec.uaddOverflow a b)

def overflowingSub (a b : U128) : U128 × Bool := (a - b, BitVec.usubOverflow a b)

/-- The word that carries a flag. -/
def carryWord (carry : Bool) : U128 := if carry then 1 else 0

/-- One bit of a word. -/
def bitAt (count : Nat) : U128 := 1 <<< (count % 128)

/-- 256 bits, high half first. -/
structure U256 where
  hi : U128
  lo : U128
deriving DecidableEq, Repr

namespace U256

def zero : U256 := ⟨0, 0⟩

def isZero (a : U256) : Bool := a.hi = 0 && a.lo = 0

def le (a b : U256) : Bool := a.hi < b.hi || (a.hi = b.hi && a.lo ≤ b.lo)

def lt (a b : U256) : Bool := a.le b && a ≠ b

/-- The product of two words, from their 64-bit halves. -/
def wideningMul (a b : U128) : U256 :=
  let al := (a.setWidth 64).setWidth 128
  let ah := a >>> 64
  let bl := (b.setWidth 64).setWidth 128
  let bh := b >>> 64
  let ll := al * bl
  let mid := overflowingAdd (al * bh) (ah * bl)
  let lo := ll + (mid.1 <<< 64)
  { hi := ah * bh + (mid.1 >>> 64) + (if mid.2 then 1 <<< 64 else 0) + carryWord (lo < ll)
    lo := lo }

/-- The low 256 bits of a product with a word. -/
def mulU128 (a : U256) (b : U128) : U256 :=
  let low := wideningMul a.lo b
  { hi := low.hi + a.hi * b
    lo := low.lo }

/-- Subtraction, wrapping. -/
def checkedSub (a b : U256) : U256 :=
  let low := overflowingSub a.lo b.lo
  { hi := a.hi - b.hi - carryWord low.2
    lo := low.1 }

/-- Shift left by one and put a bit in. -/
def shl1 (a : U256) (bit : Bool) : U256 where
  hi := (a.hi <<< 1) ||| (a.lo >>> 127)
  lo := (a.lo <<< 1) ||| carryWord bit

/-- Long division by a word, the largest word if the quotient does not fit. -/
def divU128 (a : U256) (d : U128) : U128 :=
  if d = 0 then 0
  else if a.hi = 0 then a.lo / d
  else if d ≤ a.hi then maxU128
  else
    ((List.range 128).reverse.foldl (fun (rem, quot) i =>
      let overflow : Bool := 1 <<< 127 ≤ rem
      let shifted := (rem <<< 1) ||| carryWord (a.lo.getLsbD i)
      if overflow || d ≤ shifted then (shifted - d, quot ||| bitAt i) else (shifted, quot))
      (a.hi, 0)).2

end U256

/-- 512 bits, high half first. -/
structure U512 where
  hi : U256
  lo : U256
deriving DecidableEq, Repr

namespace U512

def zero : U512 := ⟨.zero, .zero⟩

def le (a b : U512) : Bool := if a.hi = b.hi then a.lo.le b.lo else a.hi.le b.hi && a.hi ≠ b.hi

def lt (a b : U512) : Bool := a.le b && a ≠ b

def add (a b : U512) : U512 :=
  let c0 := overflowingAdd a.lo.lo b.lo.lo
  let c1a := overflowingAdd a.lo.hi b.lo.hi
  let c1b := overflowingAdd c1a.1 (carryWord c0.2)
  let c2 := overflowingAdd a.hi.lo b.hi.lo
  let c2b := overflowingAdd c2.1 (carryWord (c1a.2 || c1b.2))
  { hi := ⟨a.hi.hi + b.hi.hi + carryWord (c2.2 || c2b.2), c2b.1⟩
    lo := ⟨c1b.1, c0.1⟩ }

def sub (a b : U512) : U512 :=
  let br0 := overflowingSub a.lo.lo b.lo.lo
  let br1a := overflowingSub a.lo.hi b.lo.hi
  let br1b := overflowingSub br1a.1 (carryWord br0.2)
  let br2 := overflowingSub a.hi.lo b.hi.lo
  let br2b := overflowingSub br2.1 (carryWord (br1a.2 || br1b.2))
  { hi := ⟨a.hi.hi - b.hi.hi - carryWord (br2.2 || br2b.2), br2b.1⟩
    lo := ⟨br1b.1, br0.1⟩ }

/-- The product of 256 bits and a word. -/
def fromU256TimesU128 (a : U256) (b : U128) : U512 :=
  let low := U256.wideningMul a.lo b
  let high := U256.wideningMul a.hi b
  let mid := overflowingAdd low.hi high.lo
  { hi := ⟨0, high.hi + carryWord mid.2⟩
    lo := ⟨mid.1, low.lo⟩ }

/-- The low 512 bits of a product with a word. -/
def mulU128 (a : U512) (b : U128) : U512 :=
  (fromU256TimesU128 a.lo b).add ⟨(fromU256TimesU128 a.hi b).lo, .zero⟩

def mulU256 (a b : U256) : U512 :=
  let lowLow := U256.wideningMul a.lo b.lo
  let lowHigh := U256.wideningMul a.lo b.hi
  let highLow := U256.wideningMul a.hi b.lo
  let highHigh := U256.wideningMul a.hi b.hi
  let mid1 := overflowingAdd lowLow.hi lowHigh.lo
  let c2 := overflowingAdd 0 lowHigh.hi
  let c2b := overflowingAdd c2.1 (carryWord mid1.2)
  let mid2 := overflowingAdd mid1.1 highLow.lo
  let c4 := overflowingAdd c2b.1 highLow.hi
  let c4b := overflowingAdd c4.1 (carryWord mid2.2)
  let carry := carryWord (c2.2 || c2b.2) + carryWord (c4.2 || c4b.2)
  let c5 := overflowingAdd c4b.1 highHigh.lo
  { hi := ⟨highHigh.hi + carryWord c5.2 + carry, c5.1⟩
    lo := ⟨mid2.1, lowLow.lo⟩ }

/-- One bit. -/
def bit (a : U512) (i : Nat) : Bool :=
  if 384 ≤ i then a.hi.hi.getLsbD (i - 384)
  else if 256 ≤ i then a.hi.lo.getLsbD (i - 256)
  else if 128 ≤ i then a.lo.hi.getLsbD (i - 128)
  else a.lo.lo.getLsbD i

/-- Shift left by one and put a bit in. -/
def shl1 (a : U512) (bit : Bool) : U512 where
  hi := ⟨(a.hi.hi <<< 1) ||| (a.hi.lo >>> 127), (a.hi.lo <<< 1) ||| (a.lo.hi >>> 127)⟩
  lo := ⟨(a.lo.hi <<< 1) ||| (a.lo.lo >>> 127), (a.lo.lo <<< 1) ||| carryWord bit⟩

end U512

/-- The largest quotient between two bounds whose product still fits, by bisection. -/
def searchQuotient (fits : Nat → Bool) (low high : Nat) : Nat :=
  if low < high then
    let mid := low + (high - low + 1) / 2
    if fits mid then searchQuotient fits mid high else searchQuotient fits low (mid - 1)
  else low
termination_by high - low

/-- Division of 256 bits by 256 bits, for quotients of 64 bits. -/
def u256DivFloor (num den : U256) : Nat :=
  if den.isZero then 0
  else if den.hi = 0 then min (num.divU128 den.lo).toNat (2 ^ 64 - 1)
  else if num.le den then if num = den then 1 else 0
  else searchQuotient (fun mid => (U512.mulU256 den ⟨0, .ofNat 128 mid⟩).le ⟨.zero, num⟩) 1
    (2 ^ 64 - 1)

/-- Record a bit of the quotient. -/
def setQuotientBit (i : Nat) (quot : U128 × U128) : U128 × U128 :=
  if 128 ≤ i then (quot.1 ||| bitAt (i - 128), quot.2) else (quot.1, quot.2 ||| bitAt i)

/-- A quotient that needs more than a word is the largest word. -/
def clampQuotient (quot : U128 × U128) : U128 := if quot.1 ≠ 0 then maxU128 else quot.2

def U512.divU256 (a : U512) (d : U256) : U128 :=
  if d.isZero then 0
  else if a.hi.isZero then
    if d.hi = 0 then a.lo.divU128 d.lo else .ofNat 128 (u256DivFloor a.lo d)
  else
    clampQuotient ((List.range 512).reverse.foldl (fun (rem, quot) i =>
      let shifted := U256.shl1 rem (a.bit i)
      if !shifted.le d || shifted = d then (shifted.checkedSub d, setQuotientBit i quot)
      else (shifted, quot)) (U256.zero, (0, 0))).2

def u512DivU512 (num den : U512) : U128 :=
  if den = .zero then 0
  else if num.le den then if num = den then 1 else 0
  else if den.hi = .zero then num.divU256 den.lo
  else
    clampQuotient ((List.range 512).reverse.foldl (fun (rem, quot) i =>
      let shifted := U512.shl1 rem (num.bit i)
      if !shifted.le den || shifted = den then (shifted.sub den, setQuotientBit i quot)
      else (shifted, quot)) (U512.zero, (0, 0))).2

end Yggdrasil.Ledger.Rewards
