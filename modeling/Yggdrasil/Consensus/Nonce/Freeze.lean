import Yggdrasil.Consensus.Nonce.Evolution
import Yggdrasil.Library.SortedSplit

/-!
# The next epoch nonce does not see late blocks

Two chains that agree on every block before the stability window of an epoch, and differ in its
late blocks, should give the same nonce to the next epoch.  The late blocks do enter the evolving
nonce and the last-block nonce, so the argument follows the four fields that the next transition
reads or that decide it (`NextNonceView`), through a step lemma for one late block and an
induction over the late part of a chain.

The window test adds the stability window to the slot in 64 bits.  `nonceFrozen_iff` says that
the freeze holds exactly as long as that addition cannot wrap for a slot of the epoch.
-/

namespace Yggdrasil.Consensus.Nonce

open Ledger Library NonceEvolutionState

variable (hashBytes256 : Bytes → Hash32) (config : NonceEvolutionConfig)

/-- The slot is before the stability window of the epoch after `epoch`. -/
def beforeWindow (epoch : EpochNo) (block : NonceBlock) : Bool :=
  block.slot.toNat + config.stabilityWindow.toNat < (config.epochFirstSlot (epoch + 1)).toNat

/-- A chain that ends in `epoch`: slots do not decrease, some block is in `epoch`, and so is
every block from the stability window on. -/
structure EndsIn (epoch : EpochNo) (blocks : List NonceBlock) : Prop where
  sorted : blocks.Pairwise fun earlier later => earlier.slot ≤ later.slot
  reached : ∃ block ∈ blocks, config.slotToEpoch block.slot = epoch
  late : ∀ block ∈ blocks, beforeWindow config epoch block = false →
    config.slotToEpoch block.slot = epoch

/-- Chains that end in `epoch` and agree before its stability window give the next epoch the
same nonce, whatever state they start from and whatever block opens the next epoch. -/
def NonceFrozen (epoch : EpochNo) : Prop :=
  ∀ (state : NonceEvolutionState) (left right : List NonceBlock) (next : NonceBlock),
    EndsIn config epoch left → EndsIn config epoch right →
    left.filter (beforeWindow config epoch) = right.filter (beforeWindow config epoch) →
    (config.slotToEpoch next.slot).toNat = epoch.toNat + 1 →
    (applyBlocks hashBytes256 config state (left ++ [next])).epochNonce =
      (applyBlocks hashBytes256 config state (right ++ [next])).epochNonce

/-! ## The part of the state the next transition reads -/

/-- The fields that determine the epoch nonce after the next transition. -/
structure NextNonceView where
  candidate : Ledger.Nonce
  epochNonce : Ledger.Nonce
  prevHash : Ledger.Nonce
  currentEpoch : EpochNo

def nextNonceView (state : NonceEvolutionState) : NextNonceView where
  candidate := state.candidateNonce
  epochNonce := state.epochNonce
  prevHash := state.prevHashNonce
  currentEpoch := state.currentEpoch

/-- The epoch nonce after one more block is a function of the view. -/
theorem applyBlock_epochNonce_congr {left right : NonceEvolutionState}
    (hview : nextNonceView left = nextNonceView right) (block : NonceBlock) :
    (applyBlock hashBytes256 config left block).epochNonce =
      (applyBlock hashBytes256 config right block).epochNonce := by
  simp only [nextNonceView, NextNonceView.mk.injEq] at hview
  obtain ⟨hcandidate, hepoch, hprev, hcurrent⟩ := hview
  simp only [applyBlock, updateNonces, NonceEvolutionState.enterEpoch, tickEpochTransition,
    hcurrent]
  split
  · simp only [hcandidate, hprev]
  · exact hepoch

variable {slot : SlotNo} {epoch : EpochNo} (state : NonceEvolutionState)

theorem le_currentEpoch_enterEpoch (epoch : EpochNo) :
    epoch ≤ (state.enterEpoch hashBytes256 config epoch).currentEpoch := by
  unfold NonceEvolutionState.enterEpoch
  split
  · exact UInt64.le_refl epoch
  · rename_i hlater
    exact UInt64.not_lt.mp hlater

theorem applyBlock_currentEpoch (block : NonceBlock) :
    (applyBlock hashBytes256 config state block).currentEpoch =
      (state.enterEpoch hashBytes256 config (config.slotToEpoch block.slot)).currentEpoch := rfl

theorem currentEpoch_le_applyBlock (block : NonceBlock) :
    state.currentEpoch ≤ (applyBlock hashBytes256 config state block).currentEpoch := by
  rw [applyBlock_currentEpoch, NonceEvolutionState.enterEpoch]
  split
  · rename_i hlater
    exact UInt64.le_of_lt hlater
  · exact UInt64.le_refl _

theorem le_currentEpoch_applyBlocks {blocks : List NonceBlock}
    (hreached : epoch ≤ state.currentEpoch ∨
      ∃ block ∈ blocks, config.slotToEpoch block.slot = epoch) :
    epoch ≤ (applyBlocks hashBytes256 config state blocks).currentEpoch := by
  induction blocks generalizing state with
  | nil =>
    rcases hreached with hstate | ⟨block, hblock, -⟩
    · exact hstate
    · exact absurd hblock List.not_mem_nil
  | cons first rest ih =>
    -- the epoch is reached by this block or by a later one, and no block goes back
    refine ih (applyBlock hashBytes256 config state first) ?_
    rcases hreached with hstate | ⟨block, hblock, hepoch⟩
    · exact .inl (UInt64.le_trans hstate (currentEpoch_le_applyBlock _ _ _ _))
    · rcases List.mem_cons.mp hblock with rfl | hrest
      · refine .inl ?_
        rw [applyBlock_currentEpoch, hepoch]
        exact le_currentEpoch_enterEpoch hashBytes256 config state epoch
      · exact .inr ⟨block, hrest, hepoch⟩

theorem enterEpoch_of_le {state : NonceEvolutionState} (hreached : epoch ≤ state.currentEpoch) :
    state.enterEpoch hashBytes256 config epoch = state := by
  rw [NonceEvolutionState.enterEpoch, if_neg]
  exact UInt64.not_lt.mpr hreached

/-! ## Late blocks -/

/-- One late block: once its epoch is entered, the view stays as it is. -/
theorem view_applyBlock_late {block : NonceBlock} (hepoch : config.slotToEpoch block.slot = epoch)
    (hlate : inStabilityWindow config block.slot = true) :
    nextNonceView ((applyBlock hashBytes256 config state block).enterEpoch hashBytes256 config
        epoch) =
      nextNonceView (state.enterEpoch hashBytes256 config epoch) := by
  have hreached : epoch ≤ (applyBlock hashBytes256 config state block).currentEpoch := by
    rw [applyBlock_currentEpoch, hepoch]
    exact le_currentEpoch_enterEpoch hashBytes256 config state epoch
  rw [enterEpoch_of_le hashBytes256 config hreached]
  -- a late block moves the evolving nonce only, which the view leaves out
  simp [applyBlock, hepoch, updateNonces, hlate, nextNonceView]

theorem view_applyBlocks_late (epoch : EpochNo) (state : NonceEvolutionState)
    (blocks : List NonceBlock)
    (hlate : ∀ block ∈ blocks, config.slotToEpoch block.slot = epoch ∧
      inStabilityWindow config block.slot = true) :
    nextNonceView ((applyBlocks hashBytes256 config state blocks).enterEpoch hashBytes256 config
        epoch) =
      nextNonceView (state.enterEpoch hashBytes256 config epoch) := by
  induction blocks generalizing state with
  | nil => rfl
  | cons first rest ih =>
    obtain ⟨hepoch, hwindow⟩ := hlate first List.mem_cons_self
    have hrest := ih (applyBlock hashBytes256 config state first)
      fun block hblock => hlate block (List.mem_cons_of_mem _ hblock)
    exact hrest.trans (view_applyBlock_late hashBytes256 config state hepoch hwindow)

/-- A chain that ends in the epoch, with all its late blocks seen as such by the code, leaves
the view that its part before the window determines. -/
theorem view_applyBlocks {blocks : List NonceBlock} (hends : EndsIn config epoch blocks)
    (hwindow : ∀ block ∈ blocks, beforeWindow config epoch block = false →
      inStabilityWindow config block.slot = true) :
    nextNonceView (applyBlocks hashBytes256 config state blocks) =
      nextNonceView ((applyBlocks hashBytes256 config state
        (blocks.filter (beforeWindow config epoch))).enterEpoch hashBytes256 config epoch) := by
  have hsplit : blocks.filter (beforeWindow config epoch) ++
      blocks.filter (fun block => !beforeWindow config epoch block) = blocks := by
    refine filter_append_filter_not_of_pairwise _ _ ?_ hends.sorted
    intro earlier later hle hlater
    have hleNat := UInt64.le_iff_toNat_le.mp hle
    simp only [beforeWindow, decide_eq_true_eq] at hlater ⊢
    omega
  have hreached := le_currentEpoch_applyBlocks hashBytes256 config state (Or.inr hends.reached)
  have hlateBlocks : ∀ block ∈ blocks.filter fun block => !beforeWindow config epoch block,
      config.slotToEpoch block.slot = epoch ∧ inStabilityWindow config block.slot = true := by
    intro block hblock
    obtain ⟨hmem, hnot⟩ := List.mem_filter.mp hblock
    have hoff : beforeWindow config epoch block = false := by simpa using hnot
    exact ⟨hends.late block hmem hoff, hwindow block hmem hoff⟩
  rw [← view_applyBlocks_late hashBytes256 config epoch _ _ hlateBlocks,
    ← enterEpoch_of_le hashBytes256 config hreached]
  simp only [applyBlocks, ← List.foldl_append, hsplit]

/-- Two chains as in `NonceFrozen` agree on the next nonce when the code sees every late block
of either as late. -/
theorem epochNonce_eq_of_late {left right : List NonceBlock} (next : NonceBlock)
    (hleft : EndsIn config epoch left) (hright : EndsIn config epoch right)
    (hagree : left.filter (beforeWindow config epoch) = right.filter (beforeWindow config epoch))
    (hwindow : ∀ block ∈ left ++ right, beforeWindow config epoch block = false →
      inStabilityWindow config block.slot = true) :
    (applyBlocks hashBytes256 config state (left ++ [next])).epochNonce =
      (applyBlocks hashBytes256 config state (right ++ [next])).epochNonce := by
  have hviewLeft := view_applyBlocks hashBytes256 config state hleft
    fun block hblock => hwindow block (List.mem_append_left _ hblock)
  have hviewRight := view_applyBlocks hashBytes256 config state hright
    fun block hblock => hwindow block (List.mem_append_right _ hblock)
  rw [hagree, ← hviewRight] at hviewLeft
  simp only [applyBlocks, List.foldl_append]
  exact applyBlock_epochNonce_congr hashBytes256 config hviewLeft next

/-! ## The window test on words -/

/-- A late block the code takes for an early one reaches the next epoch nonce. -/
theorem epochNonce_of_misjudged {last first : SlotNo} (output : Bytes)
    (derivation : NonceDerivation) (hlast : config.slotToEpoch last = epoch)
    (hmisjudged : inStabilityWindow config last = false) (hfirst : epoch < config.slotToEpoch first) :
    (applyBlocks hashBytes256 config (fromEpoch epoch .neutral)
        [⟨last, output, none, derivation⟩, ⟨first, [], none, derivation⟩]).epochNonce =
      (deriveVrfNonce hashBytes256 output derivation).combine hashBytes256
        config.extraEntropy := by
  simp [applyBlocks, applyBlock, NonceEvolutionState.enterEpoch, updateNonces, tickEpochTransition,
    fromEpoch, hlast, hmisjudged, hfirst]

section

variable (hsize : 0 < config.epochSize) (hepoch : config.firstShelleyEpoch ≤ epoch)
  (hslot : (config.slotToEpoch slot).toNat = epoch.toNat + 1)
include hepoch hslot

/-- If some slot is in the next epoch, its first slot is computed without wrapping. -/
theorem epochFirstSlot_succ :
    (epoch + 1).toNat = epoch.toNat + 1 ∧
      (config.epochFirstSlot (epoch + 1)).toNat = config.firstSlot (epoch.toNat + 1) := by
  have hepochNat := UInt64.le_iff_toNat_le.mp hepoch
  have hbound := (config.slotToEpoch slot).toNat_lt
  have hsucc : (epoch + 1).toNat = epoch.toNat + 1 := by
    have hone : (1 : UInt64).toNat = 1 := rfl
    rw [UInt64.toNat_add]
    omega
  have hfirst := config.firstSlot_le_of_slotToEpoch (by omega) hslot
  have hslotBound := slot.toNat_lt
  refine ⟨hsucc, ?_⟩
  rw [config.epochFirstSlot_toNat, hsucc]
  · rw [UInt64.le_iff_toNat_le]
    omega
  · rw [hsucc]
    omega

include hsize

/-- Without a wrap the code's window test agrees with the one on naturals. -/
theorem inStabilityWindow_of_not_before
    (hfits : (config.epochFirstSlot (epoch + 1)).toNat + config.stabilityWindow.toNat ≤ 2 ^ 64)
    {block : NonceBlock} (hblock : config.slotToEpoch block.slot = epoch)
    (hlate : beforeWindow config epoch block = false) :
    inStabilityWindow config block.slot = true := by
  have hfirst := (epochFirstSlot_succ config hepoch hslot).2
  have hbelow := config.slot_lt_firstSlot_succ hsize hepoch hblock
  have hsum : (block.slot + config.stabilityWindow).toNat =
      block.slot.toNat + config.stabilityWindow.toNat := by
    rw [UInt64.toNat_add]
    omega
  simp only [beforeWindow, decide_eq_false_iff_not, not_lt] at hlate
  simp only [inStabilityWindow, hblock, decide_eq_true_eq, UInt64.le_iff_toNat_le, hsum]
  exact hlate

variable
  (hwraps : 2 ^ 64 < (config.epochFirstSlot (epoch + 1)).toNat + config.stabilityWindow.toNat)
include hwraps

/-- When the addition can wrap, the last slot of the epoch is taken for an early one. -/
theorem inStabilityWindow_last_slot :
    ∃ last : SlotNo, config.slotToEpoch last = epoch ∧ inStabilityWindow config last = false ∧
      ∀ output prevHash derivation,
        beforeWindow config epoch ⟨last, output, prevHash, derivation⟩ = false := by
  obtain ⟨hsucc, hfirst⟩ := epochFirstSlot_succ config hepoch hslot
  have hsizeNat : 0 < config.epochSize.toNat := UInt64.lt_iff_toNat_lt.mp hsize
  have hepochNat := UInt64.le_iff_toNat_le.mp hepoch
  have hstep : config.firstSlot epoch.toNat + config.epochSize.toNat =
      config.firstSlot (epoch.toNat + 1) := by
    unfold NonceEvolutionConfig.firstSlot
    rw [Nat.succ_sub hepochNat, Nat.succ_mul, Nat.add_assoc]
  have hbound := (config.epochFirstSlot (epoch + 1)).toNat_lt
  have hwindow := config.stabilityWindow.toNat_lt
  have hone : (1 : UInt64).toNat = 1 := rfl
  have hlast : (config.epochFirstSlot (epoch + 1) - 1).toNat =
      (config.epochFirstSlot (epoch + 1)).toNat - 1 :=
    UInt64.toNat_sub_of_le _ _ (UInt64.le_iff_toNat_le.mpr (by omega))
  have hepochLast : config.slotToEpoch (config.epochFirstSlot (epoch + 1) - 1) = epoch :=
    config.slotToEpoch_of_mem hsize hepoch (by omega) (by omega)
  refine ⟨config.epochFirstSlot (epoch + 1) - 1, hepochLast, ?_, ?_⟩
  · simp only [inStabilityWindow, hepochLast, decide_eq_false_iff_not, UInt64.le_iff_toNat_le,
      UInt64.toNat_add, hlast]
    omega
  · intro output prevHash derivation
    simp only [beforeWindow, decide_eq_false_iff_not, hlast]
    omega

/-- With a wrapping window test, two one-block chains that differ in the VRF output of the last
slot disagree on the next nonce. -/
theorem not_nonceFrozen_of_wraps (outputs : Bytes × Bytes) (derivation : NonceDerivation)
    (hdistinct :
      (deriveVrfNonce hashBytes256 outputs.1 derivation).combine hashBytes256
          config.extraEntropy ≠
        (deriveVrfNonce hashBytes256 outputs.2 derivation).combine hashBytes256
          config.extraEntropy) :
    ¬ NonceFrozen hashBytes256 config epoch := by
  intro hfrozen
  obtain ⟨last, hlast, hmisjudged, hbefore⟩ :=
    inStabilityWindow_last_slot config hsize hepoch hslot hwraps
  have hlater : epoch < config.slotToEpoch slot := by
    rw [UInt64.lt_iff_toNat_lt]
    omega
  have hends : ∀ output, EndsIn config epoch [⟨last, output, none, derivation⟩] := fun output =>
    { sorted := List.pairwise_singleton _ _
      reached := ⟨_, List.mem_singleton.mpr rfl, hlast⟩
      late := fun block hblock _ => by rw [List.mem_singleton.mp hblock]; exact hlast }
  have hsame := hfrozen (fromEpoch epoch .neutral) [⟨last, outputs.1, none, derivation⟩]
    [⟨last, outputs.2, none, derivation⟩] ⟨slot, [], none, derivation⟩ (hends _) (hends _)
    (by simp [hbefore]) hslot
  simp only [List.cons_append, List.nil_append] at hsame
  rw [epochNonce_of_misjudged hashBytes256 config _ derivation hlast hmisjudged hlater,
    epochNonce_of_misjudged hashBytes256 config _ derivation hlast hmisjudged hlater] at hsame
  exact hdistinct hsame

end

/-- **The freeze of the epoch nonce.**  For a hash that keeps two VRF outputs apart, the nonce
of the epoch after `epoch` is independent of late blocks, over all states and chains, exactly
when the addition of the window test cannot wrap for a slot of `epoch`: the first slot of the
next epoch plus the stability window is at most `2 ^ 64` (or no slot is in the next epoch). -/
theorem nonceFrozen_iff (hsize : 0 < config.epochSize) {epoch : EpochNo}
    (hepoch : config.firstShelleyEpoch ≤ epoch)
    (hdistinct : ∃ (outputs : Bytes × Bytes) (derivation : NonceDerivation),
      (deriveVrfNonce hashBytes256 outputs.1 derivation).combine hashBytes256
          config.extraEntropy ≠
        (deriveVrfNonce hashBytes256 outputs.2 derivation).combine hashBytes256
          config.extraEntropy) :
    NonceFrozen hashBytes256 config epoch ↔
      ((∃ slot, (config.slotToEpoch slot).toNat = epoch.toNat + 1) →
        (config.epochFirstSlot (epoch + 1)).toNat + config.stabilityWindow.toNat ≤ 2 ^ 64) := by
  obtain ⟨outputs, derivation, hdistinct⟩ := hdistinct
  constructor
  · rintro hfrozen ⟨slot, hslot⟩
    by_contra hwraps
    exact not_nonceFrozen_of_wraps hashBytes256 config hsize hepoch hslot (not_le.mp hwraps)
      outputs derivation hdistinct hfrozen
  · intro hfits state left right next hleft hright hagree hnext
    refine epochNonce_eq_of_late hashBytes256 config state next hleft hright hagree ?_
    intro block hblock hlate
    have hblockEpoch : config.slotToEpoch block.slot = epoch := by
      rcases List.mem_append.mp hblock with hmem | hmem
      · exact hleft.late block hmem hlate
      · exact hright.late block hmem hlate
    exact inStabilityWindow_of_not_before config hsize hepoch hnext (hfits ⟨_, hnext⟩)
      hblockEpoch hlate

/-- Mainnet's epochs: 432000 slots, a stability window of 129600, Shelley from epoch 208. -/
def mainnetEpochs : NonceEvolutionConfig where
  epochSize := 432000
  stabilityWindow := 129600
  extraEntropy := .neutral
  byronShelleyTransition := some (4492800, 208)

theorem nonceFrozen_mainnet :
    NonceFrozen (fun bytes => BitVec.ofNat 256 bytes.length) mainnetEpochs 208 :=
  (nonceFrozen_iff _ mainnetEpochs (by decide) (by decide)
    ⟨([], [0]), .tPraos, by decide⟩).mpr fun _ => by decide

/-- Short epochs; the last one starts 16 slots before the end of the 64-bit slots. -/
def shortEpochs : NonceEvolutionConfig where
  epochSize := 100
  stabilityWindow := 30
  extraEntropy := .neutral
  byronShelleyTransition := none

/-- In the last full epoch of `shortEpochs` the window test wraps, and late blocks reach the
next nonce under every hash that is not constant. -/
theorem not_nonceFrozen_shortEpochs {a b : Bytes} (hab : hashBytes256 a ≠ hashBytes256 b) :
    ¬ NonceFrozen hashBytes256 shortEpochs 184467440737095515 := by
  have hslot : (shortEpochs.slotToEpoch 18446744073709551600).toNat =
      (184467440737095515 : EpochNo).toNat + 1 := by decide
  refine not_nonceFrozen_of_wraps hashBytes256 shortEpochs (by decide) (by decide) hslot
    (by decide) (a, b) .tPraos ?_
  simp [deriveVrfNonce, vrfOutputToNonce, shortEpochs, hab]

theorem shortEpochs_not_frozen :
    ¬ NonceFrozen (fun bytes => BitVec.ofNat 256 bytes.length) shortEpochs 184467440737095515 :=
  not_nonceFrozen_shortEpochs _ (a := []) (b := [0]) (by decide)

end Yggdrasil.Consensus.Nonce
