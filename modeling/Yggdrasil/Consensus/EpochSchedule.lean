import Yggdrasil.Consensus.Nonce.Evolution
import Yggdrasil.Ledger.LedgerRules

/-!
# The epoch schedule

`EpochSchedule` (`crates/consensus/src/epoch.rs`) knows two lengths of epochs, before and after the
end of Byron.  As long as no word wraps, the first slot of an epoch and the epoch of a slot are
adjoint, across the boundary too.  The nonce evolution and the ledger have copies of both
functions, which differ from it only before the boundary.
-/

namespace Yggdrasil.Consensus

open Ledger

/-- The lengths of epochs, and the first slot and epoch after Byron if there is one. -/
structure EpochSchedule where
  slotsPerEpoch : UInt64
  byronSlotsPerEpoch : UInt64
  byronShelleyTransition : Option (UInt64 × UInt64)
deriving DecidableEq, Repr

namespace EpochSchedule

/-- The epoch of a slot. -/
def slotToEpoch (schedule : EpochSchedule) (slot : SlotNo) : EpochNo :=
  match schedule.byronShelleyTransition with
  | some (boundarySlot, firstShelleyEpoch) =>
    if slot ≥ boundarySlot then firstShelleyEpoch + (slot - boundarySlot) / schedule.slotsPerEpoch
    else slot / schedule.byronSlotsPerEpoch
  | none => slot / schedule.slotsPerEpoch

/-- The first slot of an epoch. -/
def epochFirstSlot (schedule : EpochSchedule) (epoch : EpochNo) : SlotNo :=
  match schedule.byronShelleyTransition with
  | some (boundarySlot, firstShelleyEpoch) =>
    if epoch ≥ firstShelleyEpoch then
      boundarySlot + (epoch - firstShelleyEpoch) * schedule.slotsPerEpoch
    else epoch * schedule.byronSlotsPerEpoch
  | none => epoch * schedule.slotsPerEpoch

/-- Epochs have slots, and the last epoch of Byron is complete. -/
structure Proper (schedule : EpochSchedule) : Prop where
  slots : 0 < schedule.slotsPerEpoch
  byronSlots : 0 < schedule.byronSlotsPerEpoch
  boundary : ∀ boundarySlot firstShelleyEpoch,
    schedule.byronShelleyTransition = some (boundarySlot, firstShelleyEpoch) →
      boundarySlot.toNat = firstShelleyEpoch.toNat * schedule.byronSlotsPerEpoch.toNat

/-- The first slot of the epoch is computed without overflow. -/
def FirstSlotFits (schedule : EpochSchedule) (epoch : EpochNo) : Prop :=
  match schedule.byronShelleyTransition with
  | some (boundarySlot, firstShelleyEpoch) => firstShelleyEpoch ≤ epoch →
      boundarySlot.toNat +
        (epoch.toNat - firstShelleyEpoch.toNat) * schedule.slotsPerEpoch.toNat < 2 ^ 64
  | none => epoch.toNat * schedule.slotsPerEpoch.toNat < 2 ^ 64

/-- The epoch of the slot is computed without overflow. -/
def EpochFits (schedule : EpochSchedule) (slot : SlotNo) : Prop :=
  ∀ boundarySlot firstShelleyEpoch,
    schedule.byronShelleyTransition = some (boundarySlot, firstShelleyEpoch) →
      firstShelleyEpoch.toNat +
        (slot.toNat - boundarySlot.toNat) / schedule.slotsPerEpoch.toNat < 2 ^ 64

variable {schedule : EpochSchedule} {epoch : EpochNo} {slot : SlotNo}

/-- First slots and epochs of one length. -/
theorem mul_le_iff {size : UInt64} (hsize : 0 < size)
    (hfits : epoch.toNat * size.toNat < 2 ^ 64) : epoch * size ≤ slot ↔ epoch ≤ slot / size := by
  rw [UInt64.le_iff_toNat_le, UInt64.toNat_mul, Nat.mod_eq_of_lt hfits]
  exact (Nat.le_div_iff_mul_le hsize).symm

/-- The first slot of an epoch and the epoch of a slot are adjoint. -/
theorem epochFirstSlot_le (hproper : schedule.Proper) (hfirst : schedule.FirstSlotFits epoch)
    (hepoch : schedule.EpochFits slot) :
    schedule.epochFirstSlot epoch ≤ slot ↔ epoch ≤ schedule.slotToEpoch slot := by
  unfold epochFirstSlot slotToEpoch
  unfold FirstSlotFits at hfirst
  cases htransition : schedule.byronShelleyTransition with
  | none =>
    rw [htransition] at hfirst
    exact mul_le_iff hproper.slots hfirst
  | some transition =>
    obtain ⟨boundary, first⟩ := transition
    have hboundary := hproper.boundary _ _ htransition
    have hsize := UInt64.lt_iff_toNat_lt.mp hproper.slots
    have hbyron := UInt64.lt_iff_toNat_lt.mp hproper.byronSlots
    have hsum := hepoch _ _ htransition
    simp only [htransition] at hfirst
    dsimp only
    by_cases hlate : first ≤ epoch
    · have hslot : (boundary + (epoch - first) * schedule.slotsPerEpoch).toNat =
          boundary.toNat + (epoch.toNat - first.toNat) * schedule.slotsPerEpoch.toNat := by
        rw [UInt64.toNat_add, UInt64.toNat_mul, UInt64.toNat_sub_of_le _ _ hlate,
          Nat.add_mod_mod, Nat.mod_eq_of_lt (hfirst hlate)]
      rw [if_pos hlate, UInt64.le_iff_toNat_le, UInt64.le_iff_toNat_le, hslot]
      rw [UInt64.le_iff_toNat_le] at hlate
      split_ifs with hafter
      · rw [UInt64.toNat_add, UInt64.toNat_div, UInt64.toNat_sub_of_le _ _ hafter,
          Nat.mod_eq_of_lt hsum]
        have hadjoint := Nat.le_div_iff_mul_le hsize (x := epoch.toNat - first.toNat)
          (y := slot.toNat - boundary.toNat)
        rw [ge_iff_le, UInt64.le_iff_toNat_le] at hafter
        omega
      · -- a slot of Byron is in an epoch before the first one of Shelley
        rw [ge_iff_le, UInt64.le_iff_toNat_le] at hafter
        have hbefore : slot.toNat / schedule.byronSlotsPerEpoch.toNat < first.toNat :=
          (Nat.div_lt_iff_lt_mul hbyron).mpr (by omega)
        rw [UInt64.toNat_div]
        exact iff_of_false (by omega) (by omega)
    · have hless := UInt64.lt_iff_toNat_lt.mp (UInt64.not_le.mp hlate)
      have hmul := hboundary ▸ Nat.mul_lt_mul_of_pos_right hless hbyron
      have hword := boundary.toNat_lt
      rw [if_neg hlate]
      split_ifs with hafter
      · rw [ge_iff_le, UInt64.le_iff_toNat_le] at hafter
        rw [UInt64.le_iff_toNat_le, UInt64.le_iff_toNat_le, UInt64.toNat_mul, UInt64.toNat_add,
          UInt64.toNat_div, UInt64.toNat_sub_of_le _ _ (UInt64.le_iff_toNat_le.mpr hafter),
          Nat.mod_eq_of_lt hsum, Nat.mod_eq_of_lt (by omega)]
        exact iff_of_true (by omega) (hless.le.trans (Nat.le_add_right _ _))
      · exact mul_le_iff hproper.byronSlots (by omega)

/-- **One epoch arithmetic.**  First slots and epochs are adjoint, and from the end of Byron on the
nonce evolution and the ledger compute the same ones. -/
theorem epochFirstSlot_le_iff_and_agree (schedule : EpochSchedule) (hproper : schedule.Proper) :
    (∀ epoch slot, schedule.FirstSlotFits epoch → schedule.EpochFits slot →
      (schedule.epochFirstSlot epoch ≤ slot ↔ epoch ≤ schedule.slotToEpoch slot)) ∧
    (∀ config : Nonce.NonceEvolutionConfig, config.epochSize = schedule.slotsPerEpoch →
      config.byronShelleyTransition = schedule.byronShelleyTransition →
      (∀ slot, (∀ transition ∈ schedule.byronShelleyTransition, transition.1 ≤ slot) →
        config.slotToEpoch slot = schedule.slotToEpoch slot) ∧
      ∀ epoch, (∀ transition ∈ schedule.byronShelleyTransition, transition.2 ≤ epoch) →
        config.epochFirstSlot epoch = schedule.epochFirstSlot epoch) ∧
    ∀ {Update Other : Type} (rest : LedgerRest Update Other),
      rest.slotsPerEpoch = schedule.slotsPerEpoch →
      rest.byronShelleyTransition = schedule.byronShelleyTransition →
      ∀ epoch, (∀ transition ∈ schedule.byronShelleyTransition, transition.2 ≤ epoch) →
        schedule.FirstSlotFits epoch →
        Ledger.epochFirstSlot rest epoch = schedule.epochFirstSlot epoch := by
  refine ⟨fun epoch slot => epochFirstSlot_le hproper, fun config hsize htransition => ⟨?_, ?_⟩, ?_⟩
  · intro slot hslot
    unfold Nonce.NonceEvolutionConfig.slotToEpoch slotToEpoch
    rw [htransition, hsize]
    cases hboth : schedule.byronShelleyTransition with
    | none => rfl
    | some transition => simp [hslot transition hboth]
  · intro epoch hepoch
    unfold Nonce.NonceEvolutionConfig.epochFirstSlot epochFirstSlot
    rw [htransition, hsize]
    cases hboth : schedule.byronShelleyTransition with
    | none => rfl
    | some transition => simp [hepoch transition hboth]
  · intro Update Other rest hsize htransition epoch hepoch hfits
    unfold Ledger.epochFirstSlot epochFirstSlot Library.saturatingMul
    unfold FirstSlotFits at hfits
    rw [htransition, hsize]
    cases hboth : schedule.byronShelleyTransition with
    | none =>
      rw [hboth] at hfits
      exact if_pos hfits
    | some transition =>
      have hlate := hepoch transition hboth
      simp only [hboth] at hfits
      have hproduct : (epoch - transition.2).toNat * schedule.slotsPerEpoch.toNat < 2 ^ 64 := by
        rw [UInt64.toNat_sub_of_le _ _ hlate]
        exact (Nat.le_add_left _ _).trans_lt (hfits hlate)
      dsimp only
      rw [if_pos hlate, if_pos hproduct]
      exact (if_pos hlate).symm

/-- The main network. -/
def mainnet : EpochSchedule := ⟨432000, 21600, some (4492800, 208)⟩

theorem mainnet_epochs :
    mainnet.epochFirstSlot 208 ≤ 4492799 ↔ 208 ≤ mainnet.slotToEpoch 4492799 := by
  refine (epochFirstSlot_le_iff_and_agree mainnet ⟨by decide, by decide, ?_⟩).1 208 4492799 ?_ ?_
  · rintro _ _ ⟨⟩
    decide
  · intro _
    decide
  · rintro _ _ ⟨⟩
    decide

end EpochSchedule

end Yggdrasil.Consensus
