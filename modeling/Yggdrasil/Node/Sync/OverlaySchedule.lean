import Yggdrasil.Ledger.Registries

/-!
# The overlay schedule

In the first epochs of Shelley a share `d` of the slots belongs to the genesis delegates.  A slot
does if the running count `ceil (offset * d)` grows over it, and the count before the slot says whose
turn it is.  The count grows by at most one in a slot.  So it is the number of overlay slots, it
passes through every value, and the active overlay slots go round the delegates.

The products of the source fit in 128 bits.  The inverse of the active slot coefficient, which the
source takes from a float, is a parameter.
-/

namespace Yggdrasil.Node.Sync

open Ledger (SlotNo UnitInterval Hash28 GenesisDelegationState)
open Library (saturatingAdd)

def unitIntervalIsZero (d : UnitInterval) : Bool := d.denominator = 0 || d.numerator = 0

def ceilRatioU128 (numerator denominator : Nat) : Nat :=
  if denominator = 0 then 0 else numerator ⌈/⌉ denominator

def overlayStep (offset : UInt64) (d : UnitInterval) : Nat :=
  ceilRatioU128 (offset.toNat * d.numerator.toNat) d.denominator.toNat

def isOverlaySlot (firstSlot : SlotNo) (d : UnitInterval) (slot : SlotNo) : Bool :=
  if unitIntervalIsZero d || slot < firstSlot then false
  else
    let offset := slot - firstSlot
    overlayStep offset d < overlayStep (saturatingAdd offset 1) d

/-- Whether an overlay slot has a block, and whose. -/
inductive TpraosOverlaySlot where
  | nonActive
  | active (genesisHash : Hash28) (delegation : GenesisDelegationState)
deriving DecidableEq

def TpraosOverlaySlot.delegate : TpraosOverlaySlot → Option (Hash28 × GenesisDelegationState)
  | nonActive => none
  | active genesisHash delegation => some (genesisHash, delegation)

structure TpraosOverlaySlotContext where
  firstSlot : SlotNo
  decentralisationParam : UnitInterval
  offset : UInt64
  position : Nat
  ascInv : Nat
  genesisIdx : Option Nat
  classification : TpraosOverlaySlot
deriving DecidableEq

/-- The place of a slot in the overlay; `genDelegs` are the delegates in the order of their keys. -/
def lookupTpraosOverlayScheduleContext (firstSlot : SlotNo)
    (genDelegs : List (Hash28 × GenesisDelegationState)) (d : UnitInterval) (ascInv : Nat)
    (slot : SlotNo) : Option TpraosOverlaySlotContext :=
  if !isOverlaySlot firstSlot d slot then none
  else
    let offset := slot - firstSlot
    let position := overlayStep offset d
    let context := TpraosOverlaySlotContext.mk firstSlot d offset position ascInv
    if genDelegs.isEmpty then some (context none .nonActive)
    else if ascInv = 0 ∨ position % ascInv ≠ 0 then some (context none .nonActive)
    else
      let genesisIdx := position / ascInv % genDelegs.length
      match genDelegs[genesisIdx]? with
      | some (genesisHash, delegation) =>
        some (context (some genesisIdx) (.active genesisHash delegation))
      | none => some (context none .nonActive)

/-- The number of overlay slots among the first `count` slots of an epoch. -/
def overlaySlots (firstSlot : SlotNo) (d : UnitInterval) (count : Nat) : Nat :=
  (List.range count).countP fun offset => isOverlaySlot firstSlot d (firstSlot + .ofNat offset)

/-- The place among the delegates of the one whose block is due in a slot. -/
def dueDelegate (firstSlot : SlotNo) (genDelegs : List (Hash28 × GenesisDelegationState))
    (d : UnitInterval) (ascInv : Nat) (slot : SlotNo) : Option Nat :=
  (lookupTpraosOverlayScheduleContext firstSlot genDelegs d ascInv slot).bind (·.genesisIdx)

/-- The share is a fraction between zero and one. -/
structure Share (d : UnitInterval) : Prop where
  defined : d.denominator ≠ 0
  proper : d.numerator ≤ d.denominator

theorem Share.positive {d : UnitInterval} (hshare : Share d) : 0 < d.denominator.toNat :=
  Nat.pos_of_ne_zero fun hzero => hshare.defined (UInt64.toNat_inj.mp hzero)

/-! ## The running count -/

/-- The running count over the naturals. -/
def runningCount (d : UnitInterval) (offset : Nat) : Nat :=
  offset * d.numerator.toNat ⌈/⌉ d.denominator.toNat

section

variable {d : UnitInterval} {firstSlot slot : SlotNo} (hshare : Share d)
include hshare

/-- **The count grows by at most one** from a slot to the next. -/
theorem runningCount_succ (offset : Nat) :
    runningCount d offset ≤ runningCount d (offset + 1) ∧
      runningCount d (offset + 1) ≤ runningCount d offset + 1 := by
  have hpositive := hshare.positive
  have hproper := UInt64.le_iff_toNat_le.mp hshare.proper
  unfold runningCount
  rw [Nat.add_mul, Nat.one_mul, Nat.ceilDiv_eq_add_pred_div, Nat.ceilDiv_eq_add_pred_div,
    ← Nat.add_div_right _ hpositive]
  exact ⟨Nat.div_le_div_right (by omega), Nat.div_le_div_right (by omega)⟩

theorem runningCount_eq_ceil (count : Nat) :
    runningCount d count = ⌈(count : ℚ) * (d.numerator.toNat / d.denominator.toNat)⌉₊ := by
  have hpositive := hshare.positive
  refine eq_of_forall_ge_iff fun bound => ?_
  rw [runningCount, ceilDiv_le_iff_le_mul hpositive, Nat.ceil_le, ← mul_div_assoc,
    div_le_iff₀ (by exact_mod_cast hpositive), Nat.mul_comm d.denominator.toNat]
  norm_cast

/-- A count that grows by at most one passes through every value. -/
theorem exists_runningCount_eq {start stop target : Nat} (hle : start ≤ stop)
    (hstart : runningCount d start ≤ target) (hstop : target < runningCount d stop) :
    ∃ offset, start ≤ offset ∧ offset < stop ∧ runningCount d offset = target ∧
      target < runningCount d (offset + 1) := by
  induction stop, hle using Nat.le_induction with
  | base => omega
  | succ stop hle ih =>
    by_cases hearlier : target < runningCount d stop
    · obtain ⟨offset, hfrom, hto, hcount⟩ := ih hearlier
      exact ⟨offset, hfrom, by omega, hcount⟩
    · have hgrows := runningCount_succ hshare stop
      exact ⟨stop, hle, by omega, by omega, hstop⟩

theorem overlayStep_eq (offset : UInt64) : overlayStep offset d = runningCount d offset.toNat :=
  if_neg hshare.positive.ne'

/-- A slot is in the overlay if the count grows over it.  The offset `2 ^ 64 - 1` has no successor,
and the slot there never is. -/
theorem isOverlaySlot_iff : isOverlaySlot firstSlot d slot = true ↔
    firstSlot ≤ slot ∧ slot.toNat - firstSlot.toNat + 1 < 2 ^ 64 ∧
      runningCount d (slot.toNat - firstSlot.toNat) <
        runningCount d (slot.toNat - firstSlot.toNat + 1) := by
  unfold isOverlaySlot
  by_cases hbefore : slot < firstSlot
  · simp [hbefore, UInt64.not_le.mpr hbefore]
  have hoffset := UInt64.toNat_sub_of_le _ _ (UInt64.not_lt.mp hbefore)
  simp only [hbefore, decide_false, Bool.or_false, UInt64.not_lt.mp hbefore, true_and,
    overlayStep_eq hshare, Library.toNat_saturatingAdd, hoffset]
  by_cases hnone : d.numerator = 0
  · simp [unitIntervalIsZero, hnone, runningCount]
  simp only [unitIntervalIsZero, hshare.defined, hnone, decide_false, Bool.or_false,
    Bool.false_eq_true, if_false, decide_eq_true_eq]
  have hslot := slot.toNat_lt
  by_cases hlast : slot.toNat - firstSlot.toNat + 1 < 2 ^ 64
  · rw [Nat.min_eq_left (by change _ + 1 ≤ _; omega)]
    exact (and_iff_right hlast).symm
  · rw [Nat.min_eq_right (by change _ ≤ _ + 1; omega)]
    have hmax : slot.toNat - firstSlot.toNat = 2 ^ 64 - 1 := by omega
    rw [hmax]
    exact iff_of_false (Nat.lt_irrefl _) fun hgrows => absurd hgrows.1 (by decide)

theorem isOverlaySlot_at {offset : Nat} (hfits : firstSlot.toNat + offset + 1 < 2 ^ 64) :
    (firstSlot + .ofNat offset).toNat = firstSlot.toNat + offset ∧
      (isOverlaySlot firstSlot d (firstSlot + .ofNat offset) = true ↔
        runningCount d offset < runningCount d (offset + 1)) := by
  have hat : (firstSlot + .ofNat offset).toNat = firstSlot.toNat + offset := by
    rw [UInt64.toNat_add, UInt64.toNat_ofNat']
    omega
  refine ⟨hat, ?_⟩
  rw [isOverlaySlot_iff hshare, UInt64.le_iff_toNat_le, hat, Nat.add_sub_cancel_left]
  exact ⟨fun hoverlay => hoverlay.2.2, fun hgrows => ⟨by omega, by omega, hgrows⟩⟩

/-- **The running count is the number of overlay slots.** -/
theorem overlaySlots_eq_runningCount {count : Nat} (hfits : firstSlot.toNat + count < 2 ^ 64) :
    overlaySlots firstSlot d count = runningCount d count := by
  induction count with
  | zero => simp [overlaySlots, runningCount]
  | succ count ih =>
    have hgrows := runningCount_succ hshare count
    have hbefore := ih (by omega)
    unfold overlaySlots at hbefore ⊢
    rw [List.range_succ, List.countP_append, hbefore, List.countP_singleton]
    simp only [(isOverlaySlot_at hshare hfits).2]
    split_ifs <;> omega

end

/-! ## Rotation -/

section

variable {d : UnitInterval} {firstSlot slot : SlotNo}
  {genDelegs : List (Hash28 × GenesisDelegationState)} {ascInv : Nat}

/-- What the lookup finds for an overlay slot. -/
theorem lookup_of_overlay (hoverlay : isOverlaySlot firstSlot d slot = true) :
    ∃ context, lookupTpraosOverlayScheduleContext firstSlot genDelegs d ascInv slot =
        some context ∧
      context.position = overlayStep (slot - firstSlot) d ∧
      context.classification.delegate = context.genesisIdx.bind (genDelegs[·]?) ∧
      context.genesisIdx = if genDelegs ≠ [] ∧ ascInv ≠ 0 ∧ context.position % ascInv = 0 then
        some (context.position / ascInv % genDelegs.length) else none := by
  unfold lookupTpraosOverlayScheduleContext
  simp only [hoverlay, Bool.not_true, Bool.false_eq_true, if_false]
  generalize overlayStep (slot - firstSlot) d = position
  by_cases hempty : genDelegs = []
  · exact ⟨_, if_pos (List.isEmpty_iff.mpr hempty), rfl, rfl, by simp [hempty]⟩
  rw [if_neg (mt List.isEmpty_iff.mp hempty)]
  by_cases hidle : ascInv = 0 ∨ position % ascInv ≠ 0
  · refine ⟨_, if_pos hidle, rfl, rfl, (if_neg ?_).symm⟩
    rintro ⟨-, hpositive, hturn⟩
    exact hidle.elim hpositive (absurd hturn)
  · have hplace : position / ascInv % genDelegs.length < genDelegs.length :=
      Nat.mod_lt _ (List.length_pos_iff.mpr hempty)
    rw [if_neg hidle, List.getElem?_eq_getElem hplace]
    refine ⟨_, rfl, rfl, (List.getElem?_eq_getElem hplace).symm, (if_pos ?_).symm⟩
    exact ⟨hempty, by tauto⟩

/-- A block is due in the overlay slots whose position is a multiple of `ascInv`. -/
theorem dueDelegate_eq_some_iff (hshare : Share d) {place : Nat} :
    dueDelegate firstSlot genDelegs d ascInv slot = some place ↔
      isOverlaySlot firstSlot d slot = true ∧ genDelegs ≠ [] ∧ ascInv ≠ 0 ∧
        runningCount d (slot.toNat - firstSlot.toNat) % ascInv = 0 ∧
        runningCount d (slot.toNat - firstSlot.toNat) / ascInv % genDelegs.length = place := by
  unfold dueDelegate
  by_cases hoverlay : isOverlaySlot firstSlot d slot = true
  · obtain ⟨context, hlookup, hposition, -, hplace⟩ :=
      @lookup_of_overlay d firstSlot slot genDelegs ascInv hoverlay
    have hafter := ((isOverlaySlot_iff hshare).mp hoverlay).1
    rw [overlayStep_eq hshare, UInt64.toNat_sub_of_le _ _ hafter] at hposition
    rw [hlookup, Option.bind_some, hplace, hposition]
    simp [hoverlay, and_assoc]
  · simp [lookupTpraosOverlayScheduleContext, hoverlay]

/-- **The next turn.**  Were a multiple of `ascInv` left out between two active slots, the count
would pass it in a slot between them, and that slot would be active. -/
theorem dueDelegate_next (hshare : Share d) {earlier later : SlotNo} {first second : Nat}
    (horder : earlier < later)
    (hearlier : dueDelegate firstSlot genDelegs d ascInv earlier = some first)
    (hlater : dueDelegate firstSlot genDelegs d ascInv later = some second)
    (hnone : ∀ slot, earlier < slot → slot < later →
      dueDelegate firstSlot genDelegs d ascInv slot = none) :
    second = (first + 1) % genDelegs.length := by
  rw [dueDelegate_eq_some_iff hshare] at hearlier hlater
  obtain ⟨hfirst, hsome, hpositive, hturn, rfl⟩ := hearlier
  obtain ⟨hsecond, -, -, hnext, rfl⟩ := hlater
  obtain ⟨hfrom, -, -⟩ := (isOverlaySlot_iff hshare).mp hfirst
  rw [UInt64.le_iff_toNat_le] at hfrom
  rw [UInt64.lt_iff_toNat_lt] at horder
  have hgrows := ((isOverlaySlot_iff hshare).mp hfirst).2.2
  have hstep := (runningCount_succ hshare (earlier.toNat - firstSlot.toNat)).2
  have hbetween : earlier.toNat - firstSlot.toNat + 1 ≤ later.toNat - firstSlot.toNat := by omega
  have hmono := monotone_nat_of_le_succ (fun offset => (runningCount_succ hshare offset).1) hbetween
  obtain ⟨turn, hturn⟩ := Nat.dvd_of_mod_eq_zero hturn
  obtain ⟨next, hnext⟩ := Nat.dvd_of_mod_eq_zero hnext
  have hless : turn < next := Nat.lt_of_mul_lt_mul_left (by omega : ascInv * turn < ascInv * next)
  have hsucc : next = turn + 1 := by
    by_contra hskip
    have htarget : ascInv * (turn + 1) < ascInv * next :=
      Nat.mul_lt_mul_of_pos_left (by omega) (Nat.pos_of_ne_zero hpositive)
    have hbegin : runningCount d (earlier.toNat - firstSlot.toNat + 1) ≤ ascInv * (turn + 1) := by
      rw [Nat.mul_succ]
      omega
    obtain ⟨offset, hstart, hstop, hcount, hpass⟩ :=
      exists_runningCount_eq hshare hbetween hbegin (hnext ▸ htarget)
    have hlast := later.toNat_lt
    obtain ⟨hat, hoverlay⟩ :=
      @isOverlaySlot_at d firstSlot hshare offset (by omega)
    have hidle := hnone (firstSlot + .ofNat offset) (by rw [UInt64.lt_iff_toNat_lt]; omega)
      (by rw [UInt64.lt_iff_toNat_lt]; omega)
    refine absurd (hidle.symm.trans ((dueDelegate_eq_some_iff hshare).mpr
      ⟨hoverlay.mpr (hcount ▸ hpass), hsome, hpositive, ?_, rfl⟩)) nofun
    rw [hat, Nat.add_sub_cancel_left, hcount, Nat.mul_mod_right]
  rw [hturn, hnext, hsucc, Nat.mul_div_cancel_left _ (Nat.pos_of_ne_zero hpositive),
    Nat.mul_div_cancel_left _ (Nat.pos_of_ne_zero hpositive), Nat.mod_add_mod]

end

/-- **The overlay schedule hits the decentralisation ratio.**  Among the first slots of an epoch the
overlay has its share, rounded up; the position of an overlay slot counts the ones before it; and
from one active slot to the next the turn goes to the next delegate. -/
theorem overlaySlots_eq_and_rotate {d : UnitInterval} (hshare : Share d) (firstSlot : SlotNo)
    (genDelegs : List (Hash28 × GenesisDelegationState)) (ascInv : Nat) :
    (∀ count : Nat, firstSlot.toNat + count < 2 ^ 64 → overlaySlots firstSlot d count =
      ⌈(count : ℚ) * (d.numerator.toNat / d.denominator.toNat)⌉₊) ∧
    (∀ slot, isOverlaySlot firstSlot d slot = true → ∃ context,
      lookupTpraosOverlayScheduleContext firstSlot genDelegs d ascInv slot = some context ∧
        context.position = overlaySlots firstSlot d (slot.toNat - firstSlot.toNat) ∧
        context.classification.delegate = context.genesisIdx.bind (genDelegs[·]?)) ∧
    ∀ earlier later first second, earlier < later →
      dueDelegate firstSlot genDelegs d ascInv earlier = some first →
      dueDelegate firstSlot genDelegs d ascInv later = some second →
      (∀ slot, earlier < slot → slot < later →
        dueDelegate firstSlot genDelegs d ascInv slot = none) →
      second = (first + 1) % genDelegs.length := by
  refine ⟨fun count hfits => ?_, fun slot hoverlay => ?_, ?_⟩
  · rw [overlaySlots_eq_runningCount hshare hfits, runningCount_eq_ceil hshare]
  · obtain ⟨context, hlookup, hposition, hdelegate, -⟩ :=
      @lookup_of_overlay d firstSlot slot genDelegs ascInv hoverlay
    have hafter := ((isOverlaySlot_iff hshare).mp hoverlay).1
    have hslot := slot.toNat_lt
    refine ⟨context, hlookup, ?_, hdelegate⟩
    rw [hposition, overlayStep_eq hshare, UInt64.toNat_sub_of_le _ _ hafter,
      overlaySlots_eq_runningCount hshare (by rw [UInt64.le_iff_toNat_le] at hafter; omega)]
  · intro earlier later first second
    exact dueDelegate_next hshare

/-- Every second slot, two delegates who take turns. -/
theorem overlaySlots_half :
    overlaySlots 100 ⟨1, 2⟩ 5 = ⌈((5 : ℕ) : ℚ) * ((1 : UInt64).toNat / (2 : UInt64).toNat)⌉₊ ∧
      dueDelegate 100 [(1, ⟨2, 3⟩), (4, ⟨5, 6⟩)] ⟨1, 2⟩ 1 100 = some 0 ∧
      ∃ second, dueDelegate 100 [(1, ⟨2, 3⟩), (4, ⟨5, 6⟩)] ⟨1, 2⟩ 1 102 = some second ∧
        second = (0 + 1) % 2 := by
  obtain ⟨hcount, -, hrotate⟩ := overlaySlots_eq_and_rotate
    (⟨by decide, by decide⟩ : Share ⟨1, 2⟩) 100 [(1, ⟨2, 3⟩), (4, ⟨5, 6⟩)] 1
  refine ⟨hcount 5 (by decide), by decide, 1, by decide, ?_⟩
  refine hrotate 100 102 0 1 (by decide) (by decide) (by decide) fun slot hafter hbefore => ?_
  obtain rfl : slot = 101 := by grind
  decide

end Yggdrasil.Node.Sync
