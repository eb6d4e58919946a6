import Yggdrasil.Consensus.ChainState
import Yggdrasil.Library.Fraction

/-!
# Active slot coefficient and the exponential comparison

`crates/consensus/src/praos/common.rs`: the rational approximation of `-ln (1 - f)` and
`taylor_exp_cmp`, which compares a target with `q * exp (-x)` by partial sums of the exponential
series.  Big integers are naturals; a pair of them that stands for a rational is a `Fraction`.
The diagnostic `f64` of the coefficient and the constructor from a float are left out: no
consensus decision reads them.
-/

namespace Yggdrasil.Consensus.Praos

open Library

/-! ## The logarithm of the active slot coefficient -/

/-- Number of series terms of `-ln (1 - p/q)`. -/
def lnSeriesTerms : Nat := 260

/-- Loop variables of `compute_neg_ln_one_minus`. -/
structure LnState where
  sum : Fraction
  pPow : Nat
  qPow : Nat
  qPow_pos : 0 < qPow

/-- One iteration: add `p^k / (k * q^k)`, reducing every twentieth time.  The loop counter is
`index + 1`. -/
def lnStep (p q : Nat) (hq : 0 < q) (index : Nat) (state : LnState) : LnState :=
  let pPow := state.pPow * p
  let qPow := state.qPow * q
  let term : Fraction :=
    { num := pPow
      den := (index + 1) * qPow
      den_pos := Nat.mul_pos index.succ_pos (Nat.mul_pos state.qPow_pos hq) }
  let sum := state.sum.add term
  { sum := if (index + 1) % 20 = 0 then sum.reduce else sum
    pPow
    qPow
    qPow_pos := Nat.mul_pos state.qPow_pos hq }

/-- The loop variables after `terms` iterations. -/
def lnLoop (p q : Nat) (hq : 0 < q) : Nat → LnState
  | 0 => { sum := ⟨0, 1, Nat.one_pos⟩, pPow := 1, qPow := 1, qPow_pos := Nat.one_pos }
  | terms + 1 => lnStep p q hq terms (lnLoop p q hq terms)

/-- `-ln (1 - p/q)` by `terms` terms of its series, reduced. -/
def computeNegLnOneMinus (p q : Nat) (hq : 0 < q) (terms : Nat) : Fraction :=
  (lnLoop p q hq terms).sum.reduce

/-- The active slot coefficient, kept as the rational `log_num / log_den`. -/
structure ActiveSlotCoeff where
  log : Fraction

namespace ActiveSlotCoeff

/-- Build the coefficient from a rational in `(0, 1]`. -/
def fromRational (num den : UInt64) : Except ConsensusError ActiveSlotCoeff :=
  if hvalid : den = 0 ∨ num = 0 ∨ num > den then
    .error .invalidActiveSlotCoeff
  else
    have hden : 0 < den.toNat := by
      rw [not_or] at hvalid
      exact Nat.pos_of_ne_zero fun hzero => hvalid.1 (UInt64.toNat_inj.mp hzero)
    .ok { log := computeNegLnOneMinus num.toNat den.toNat hden lnSeriesTerms }

end ActiveSlotCoeff

/-! ## The exponential comparison -/

/-- Number of exponential series terms tried before giving up. -/
def expSeriesTerms : Nat := 80

/-- Loop variables of `taylor_exp_cmp`: `q` times the partial sum, and `q` times the magnitude
of the last term. -/
structure ExpState where
  sum : Fraction
  term : Fraction

/-- The next term's magnitude, `term * x / k` with `k = index + 1`, reduced. -/
def nextTerm (x : Fraction) (index : Nat) (term : Fraction) : Fraction :=
  Fraction.reduce
    { num := term.num * x.num
      den := term.den * x.den * (index + 1)
      den_pos := Nat.mul_pos (Nat.mul_pos term.den_pos x.den_pos) index.succ_pos }

/-- One iteration with loop counter `index + 1`.  An early `return` is `.error` of the answer. -/
def expStep (target : Nat) (x : Fraction) (index : Nat) (state : ExpState) : Except Bool ExpState :=
  let term := nextTerm x index state.term
  if (index + 1) % 2 = 1 then
    match state.sum.sub? term with
    | none => .error true
    | some sum =>
      if target * sum.den > sum.num then .error true
      else .ok { sum := sum.reduce, term }
  else
    let sum := state.sum.add term
    if target * sum.den ≤ sum.num then .error false
    else .ok { sum := sum.reduce, term }

/-- The answer found inside the loop, or `none` when the terms run out. -/
def expLoop (target : Nat) (x : Fraction) : Nat → Nat → ExpState → Option Bool
  | 0, _, _ => none
  | remaining + 1, index, state =>
    match expStep target x index state with
    | .error answer => some answer
    | .ok next => expLoop target x remaining (index + 1) next

/-- What the series loop of `taylor_exp_cmp` returns, if it returns. -/
def seriesAnswer (q target : Nat) (x : Fraction) : Option Bool :=
  expLoop target x expSeriesTerms 0
    { sum := { num := q * x.den, den := x.den, den_pos := x.den_pos }
      term := { num := q, den := 1, den_pos := Nat.one_pos } }

/-- Is `target` above `q * exp (-x)`?  Running out of terms counts as no. -/
def taylorExpCmp (q target : Nat) (x : Fraction) : Except ConsensusError Bool :=
  .ok ((seriesAnswer q target x).getD false)

/-! ## What the loops compute -/

/-- After `terms` iterations the sum is the truncated logarithm series. -/
theorem lnLoop_spec (p q : Nat) (hq : 0 < q) (terms : Nat) :
    (lnLoop p q hq terms).pPow = p ^ terms ∧ (lnLoop p q hq terms).qPow = q ^ terms ∧
      (lnLoop p q hq terms).sum.value =
        ∑ i ∈ Finset.range terms, ((p : ℚ) / q) ^ (i + 1) / (i + 1) := by
  induction terms with
  | zero => simp [lnLoop, Fraction.value]
  | succ terms ih =>
    obtain ⟨hp, hqPow, hsum⟩ := ih
    refine ⟨by simp [lnLoop, lnStep, hp, pow_succ], by simp [lnLoop, lnStep, hqPow, pow_succ],
      ?_⟩
    -- the occasional reduction does not change the value
    have hvalue : ∀ (condition : Prop) [Decidable condition] (a : Fraction),
        (if condition then a.reduce else a).value = a.value := by
      intro condition _ a
      split <;> simp
    rw [lnLoop, lnStep, hvalue, Fraction.value_add, hsum, Finset.sum_range_succ]
    congr 1
    simp only [Fraction.value, hp, hqPow]
    push_cast
    rw [div_pow, div_div, ← pow_succ, ← pow_succ, mul_comm (((terms : ℚ)) + 1)]

/-- The stored logarithm is the series of `-ln (1 - f)` cut after 260 terms. -/
theorem ActiveSlotCoeff.log_value_of_fromRational {num den : UInt64} {coeff : ActiveSlotCoeff}
    (hbuild : fromRational num den = .ok coeff) :
    coeff.log.value =
      ∑ i ∈ Finset.range lnSeriesTerms,
        ((num.toNat : ℚ) / den.toNat) ^ (i + 1) / (i + 1) := by
  unfold fromRational at hbuild
  split at hbuild
  · cases hbuild
  · obtain rfl := Except.ok.inj hbuild
    rw [computeNegLnOneMinus, Fraction.value_reduce]
    exact (lnLoop_spec _ _ _ _).2.2

theorem nextTerm_value (x : Fraction) (index : Nat) (term : Fraction) :
    (nextTerm x index term).value = term.value * x.value / (index + 1) := by
  rw [nextTerm, Fraction.value_reduce]
  simp only [Fraction.value]
  push_cast
  field_simp

/-- An odd iteration answers `true` exactly when the target exceeds the partial sum it forms,
a negative one included; otherwise it goes on with that sum. -/
theorem expStep_odd (target : Nat) (x : Fraction) (index : Nat) (state : ExpState)
    (hodd : (index + 1) % 2 = 1) :
    (state.sum.value - (nextTerm x index state.term).value < target ∧
      expStep target x index state = .error true) ∨
    ((target : ℚ) ≤ state.sum.value - (nextTerm x index state.term).value ∧
      ∃ next, expStep target x index state = .ok next ∧
        next.sum.value = state.sum.value - (nextTerm x index state.term).value ∧
        next.term = nextTerm x index state.term) := by
  cases hsub : state.sum.sub? (nextTerm x index state.term) with
  | none =>
    -- a negative partial sum is below every target
    have hnegative := Fraction.sub?_eq_none hsub
    exact .inl ⟨by linarith, by simp [expStep, hodd, hsub]⟩
  | some sum =>
    have hvalue := Fraction.sub?_eq_some hsub
    by_cases habove : target * sum.den > sum.num
    · refine .inl ⟨?_, by simp only [expStep, hodd, hsub, habove, if_true]⟩
      rw [← hvalue]
      exact (sum.value_lt_natCast_iff target).mpr habove
    · refine .inr ⟨?_, { sum := sum.reduce, term := nextTerm x index state.term }, ?_, ?_,
        rfl⟩
      · rw [← hvalue, ← not_lt]
        exact fun hlt => habove ((sum.value_lt_natCast_iff target).mp hlt)
      · simp [expStep, hodd, hsub, habove]
      · rw [Fraction.value_reduce, hvalue]

/-- An even iteration answers `false` when the target is at most the partial sum it forms. -/
theorem expStep_even {target : Nat} {x : Fraction} {index : Nat} {state : ExpState}
    (heven : (index + 1) % 2 = 0)
    (hbelow : (target : ℚ) ≤ state.sum.value + (nextTerm x index state.term).value) :
    expStep target x index state = .error false := by
  have hcleared : target * (state.sum.add (nextTerm x index state.term)).den ≤
      (state.sum.add (nextTerm x index state.term)).num := by
    rw [← not_lt]
    intro habove
    have hlt := (Fraction.value_lt_natCast_iff _ target).mpr habove
    rw [Fraction.value_add] at hlt
    exact absurd hbelow (not_le.mpr hlt)
  have hnotOdd : ¬ (index + 1) % 2 = 1 := by omega
  simp [expStep, hnotOdd, hcleared]

/-- **The loop never gets past its second term.**  It compares the target with `q * (1 - x)`
only: above it the first iteration answers `true`, and otherwise the second, whose sum is
larger, answers `false`. -/
theorem seriesAnswer_eq (q target : Nat) (x : Fraction) :
    seriesAnswer q target x = some (decide ((q : ℚ) * (1 - x.value) < target)) := by
  have hsum : ∀ hden, Fraction.value ⟨q * x.den, x.den, hden⟩ = q := by
    intro hden
    simp only [Fraction.value]
    push_cast
    field_simp
  have hterm : Fraction.value ⟨q, 1, Nat.one_pos⟩ = q := by simp [Fraction.value]
  unfold seriesAnswer expSeriesTerms
  rw [expLoop]
  rcases expStep_odd target x 0
      ⟨⟨q * x.den, x.den, x.den_pos⟩, ⟨q, 1, Nat.one_pos⟩⟩ (by decide) with
    ⟨habove, hstep⟩ | ⟨hbelow, next, hstep, hnextSum, hnextTerm⟩
  · rw [nextTerm_value, hsum, hterm] at habove
    have hdecided : (q : ℚ) * (1 - x.value) < target := by
      rw [Nat.cast_zero] at habove
      linarith
    simp [hstep, hdecided]
  · rw [nextTerm_value, hsum, hterm] at hbelow hnextSum
    have hfirst : (target : ℚ) ≤ q * (1 - x.value) := by
      rw [Nat.cast_zero, zero_add, div_one] at hbelow
      linarith
    have hsecond : expStep target x 1 next = .error false := by
      refine expStep_even (by decide) ?_
      have hmore := (nextTerm x 1 next.term).value_nonneg
      rw [hnextSum, Nat.cast_zero, zero_add, div_one]
      linarith
    rw [hstep]
    simp only [zero_add]
    rw [expLoop, hsecond]
    simp [not_lt.mpr hfirst]

end Yggdrasil.Consensus.Praos
