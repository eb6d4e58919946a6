import Yggdrasil.Ledger.Types

/-!
# Evolution of the epoch nonce

`crates/consensus/src/nonce/evolution.rs` and `derivation.rs`: the per-block nonce update and the
epoch transition.  Blake2b-256 is a parameter.  Slots and epochs are 64-bit words and every
addition and multiplication on them wraps, as in the release build.  The CBOR codec of the state
is left out.
-/

namespace Yggdrasil.Consensus.Nonce

open Ledger

/-- Era-dependent derivation of a nonce from a VRF output. -/
inductive NonceDerivation where
  | tPraos
  | praos
deriving DecidableEq, Repr

structure NonceEvolutionConfig where
  epochSize : UInt64
  stabilityWindow : UInt64
  extraEntropy : Ledger.Nonce
  /-- Boundary slot and first Shelley epoch of a chain with a Byron part. -/
  byronShelleyTransition : Option (UInt64 × UInt64)
deriving DecidableEq, Repr

namespace NonceEvolutionConfig

/-- The epoch of a slot; the whole Byron part is labelled 0. -/
def slotToEpoch (config : NonceEvolutionConfig) (slot : SlotNo) : EpochNo :=
  match config.byronShelleyTransition with
  | some (boundarySlot, firstShelleyEpoch) =>
    if slot ≥ boundarySlot then
      firstShelleyEpoch + (slot - boundarySlot) / config.epochSize
    else 0
  | none => slot / config.epochSize

def epochFirstSlot (config : NonceEvolutionConfig) (epoch : EpochNo) : SlotNo :=
  match config.byronShelleyTransition with
  | some (boundarySlot, firstShelleyEpoch) =>
    if epoch ≥ firstShelleyEpoch then
      boundarySlot + (epoch - firstShelleyEpoch) * config.epochSize
    else 0
  | none => epoch * config.epochSize

end NonceEvolutionConfig

/-- The nonces tracked along the chain. -/
structure NonceEvolutionState where
  evolvingNonce : Ledger.Nonce
  candidateNonce : Ledger.Nonce
  epochNonce : Ledger.Nonce
  prevHashNonce : Ledger.Nonce
  labNonce : Ledger.Nonce
  currentEpoch : EpochNo
deriving DecidableEq, Repr

/-- What `apply_block` reads of a block. -/
structure NonceBlock where
  slot : SlotNo
  vrfNonceOutput : Bytes
  prevHash : Option HeaderHash
  derivation : NonceDerivation
deriving DecidableEq, Repr

section

variable (hashBytes256 : Bytes → Hash32)

/-- TPraos: the hash of the output. -/
def vrfOutputToNonce (output : Bytes) : Ledger.Nonce := .hash (hashBytes256 output)

/-- Praos: the hash of the hash of `'N'` and the output. -/
def praosVrfOutputToNonce (output : Bytes) : Ledger.Nonce :=
  .hash (hashBytes256 (bytesOfDigest 32 (hashBytes256 ((78 : UInt8) :: output))))

/-- The nonce a VRF output contributes. -/
def deriveVrfNonce (output : Bytes) : NonceDerivation → Ledger.Nonce
  | .tPraos => vrfOutputToNonce hashBytes256 output
  | .praos => praosVrfOutputToNonce hashBytes256 output

namespace NonceEvolutionState

def new (initial : Ledger.Nonce) : NonceEvolutionState where
  evolvingNonce := initial
  candidateNonce := initial
  epochNonce := initial
  prevHashNonce := .neutral
  labNonce := .neutral
  currentEpoch := 0

/-- Resume at a known epoch with its nonce. -/
def fromEpoch (epoch : EpochNo) (epochNonce : Ledger.Nonce) : NonceEvolutionState where
  evolvingNonce := epochNonce
  candidateNonce := epochNonce
  epochNonce := epochNonce
  prevHashNonce := .neutral
  labNonce := .neutral
  currentEpoch := epoch

/-- Enter a new epoch: the candidate, the last hash of the epoch before and the extra entropy
make the epoch nonce. -/
def tickEpochTransition (state : NonceEvolutionState) (config : NonceEvolutionConfig) :
    NonceEvolutionState :=
  { state with
    epochNonce := (state.candidateNonce.combine hashBytes256 state.prevHashNonce).combine
      hashBytes256 config.extraEntropy
    prevHashNonce := state.labNonce }

/-- The epoch transition of `apply_block`: tick once when the block's epoch is a later one. -/
def enterEpoch (state : NonceEvolutionState) (config : NonceEvolutionConfig)
    (blockEpoch : EpochNo) : NonceEvolutionState :=
  if blockEpoch > state.currentEpoch then
    { state.tickEpochTransition hashBytes256 config with currentEpoch := blockEpoch }
  else state

/-- The block's slot is within the stability window of the next epoch, computed on words. -/
def inStabilityWindow (config : NonceEvolutionConfig) (slot : SlotNo) : Bool :=
  slot + config.stabilityWindow ≥ config.epochFirstSlot (config.slotToEpoch slot + 1)

/-- The per-block part of `apply_block`: extend the evolving nonce, let the candidate follow
outside the stability window, and remember the block's `prev_hash`. -/
def updateNonces (state : NonceEvolutionState) (config : NonceEvolutionConfig)
    (block : NonceBlock) : NonceEvolutionState :=
  let evolving := state.evolvingNonce.combine hashBytes256
    (deriveVrfNonce hashBytes256 block.vrfNonceOutput block.derivation)
  { state with
    evolvingNonce := evolving
    candidateNonce := if inStabilityWindow config block.slot then state.candidateNonce else evolving
    labNonce := match block.prevHash with
      | some header => .fromHeaderHash header
      | none => .neutral }

def applyBlock (config : NonceEvolutionConfig) (state : NonceEvolutionState)
    (block : NonceBlock) : NonceEvolutionState :=
  (state.enterEpoch hashBytes256 config (config.slotToEpoch block.slot)).updateNonces
    hashBytes256 config block

def applyBlocks (config : NonceEvolutionConfig) (state : NonceEvolutionState)
    (blocks : List NonceBlock) : NonceEvolutionState :=
  blocks.foldl (applyBlock hashBytes256 config) state

end NonceEvolutionState

end

/-! ## Slots and epochs without wrapping -/

namespace NonceEvolutionConfig

variable (config : NonceEvolutionConfig)

/-- The first slot counted in Shelley epochs. -/
def shelleyStart : Nat :=
  match config.byronShelleyTransition with
  | some (boundarySlot, _) => boundarySlot.toNat
  | none => 0

/-- The first epoch whose blocks evolve the nonce. -/
def firstShelleyEpoch : EpochNo :=
  match config.byronShelleyTransition with
  | some (_, firstShelleyEpoch) => firstShelleyEpoch
  | none => 0

def firstSlot (epoch : Nat) : Nat :=
  config.shelleyStart + (epoch - config.firstShelleyEpoch.toNat) * config.epochSize.toNat

variable {slot : SlotNo}

/-- From the first Shelley slot on, the epoch is the wrapped sum. -/
theorem slotToEpoch_toNat (hslot : config.shelleyStart ≤ slot.toNat) :
    (config.slotToEpoch slot).toNat =
      (config.firstShelleyEpoch.toNat +
        (slot.toNat - config.shelleyStart) / config.epochSize.toNat) % 2 ^ 64 := by
  unfold slotToEpoch shelleyStart firstShelleyEpoch at *
  cases htransition : config.byronShelleyTransition with
  | none =>
    have hbound : slot.toNat / config.epochSize.toNat < 2 ^ 64 :=
      Nat.lt_of_le_of_lt (Nat.div_le_self _ _) slot.toNat_lt
    simp only [UInt64.toNat_zero, zero_add]
    exact (Nat.mod_eq_of_lt hbound).symm
  | some transition =>
    obtain ⟨boundarySlot, first⟩ := transition
    simp only [htransition] at hslot
    have hge : slot ≥ boundarySlot := hslot
    simp [if_pos hge, UInt64.toNat_sub_of_le _ _ hge]

theorem slotToEpoch_of_lt (hslot : slot.toNat < config.shelleyStart) :
    config.slotToEpoch slot = 0 := by
  unfold slotToEpoch shelleyStart at *
  cases htransition : config.byronShelleyTransition with
  | none =>
    simp only [htransition] at hslot
    exact absurd hslot (Nat.not_lt_zero _)
  | some transition =>
    obtain ⟨boundarySlot, first⟩ := transition
    simp only [htransition] at hslot
    have hlt : ¬ slot ≥ boundarySlot := UInt64.not_le.mpr hslot
    simp only [if_neg hlt]

variable {epoch : EpochNo}

/-- The first slot of a Shelley epoch is computed exactly when it fits in a word. -/
theorem epochFirstSlot_toNat (hepoch : config.firstShelleyEpoch ≤ epoch)
    (hfits : config.firstSlot epoch.toNat < 2 ^ 64) :
    (config.epochFirstSlot epoch).toNat = config.firstSlot epoch.toNat := by
  unfold epochFirstSlot firstSlot shelleyStart firstShelleyEpoch at *
  cases htransition : config.byronShelleyTransition with
  | none =>
    simp only [htransition] at hfits
    simp only [zero_add] at hfits ⊢
    rw [UInt64.toNat_mul]
    exact Nat.mod_eq_of_lt hfits
  | some transition =>
    obtain ⟨boundarySlot, first⟩ := transition
    simp only [htransition] at hepoch hfits
    simp only [if_pos hepoch, UInt64.toNat_add, UInt64.toNat_mul, UInt64.toNat_sub_of_le _ _ hepoch,
      Nat.add_mod_mod]
    exact Nat.mod_eq_of_lt hfits

/-- A wrapped sum would be below the first Shelley epoch. -/
theorem epochsSinceStart_eq {epoch : Nat} (hstart : config.shelleyStart ≤ slot.toNat)
    (hepoch : config.firstShelleyEpoch.toNat ≤ epoch)
    (hslot : (config.slotToEpoch slot).toNat = epoch) :
    (slot.toNat - config.shelleyStart) / config.epochSize.toNat =
      epoch - config.firstShelleyEpoch.toNat := by
  have hvalue := config.slotToEpoch_toNat hstart
  have hquotient := Nat.div_le_self (slot.toNat - config.shelleyStart) config.epochSize.toNat
  have hlt := slot.toNat_lt
  rw [hslot] at hvalue
  generalize (slot.toNat - config.shelleyStart) / config.epochSize.toNat = quotient at *
  omega

/-- A slot whose epoch is a Shelley epoch lies before the first slot of the next one. -/
theorem slot_lt_firstSlot_succ (hsize : 0 < config.epochSize)
    (hepoch : config.firstShelleyEpoch ≤ epoch) (hslot : config.slotToEpoch slot = epoch) :
    slot.toNat < config.firstSlot (epoch.toNat + 1) := by
  have hsizeNat : 0 < config.epochSize.toNat := hsize
  have hepochNat : config.firstShelleyEpoch.toNat ≤ epoch.toNat := hepoch
  unfold firstSlot
  by_cases hstart : config.shelleyStart ≤ slot.toNat
  · have hcount := Nat.lt_mul_div_succ (slot.toNat - config.shelleyStart) hsizeNat
    have hstep : epoch.toNat + 1 - config.firstShelleyEpoch.toNat =
        epoch.toNat - config.firstShelleyEpoch.toNat + 1 := by omega
    rw [config.epochsSinceStart_eq hstart hepochNat (congrArg _ hslot)] at hcount
    rw [hstep, mul_comm]
    omega
  · omega

/-- The slots of a Shelley epoch that is not the first: its first slot is not after them. -/
theorem firstSlot_le_of_slotToEpoch {epoch : Nat} (hepoch : config.firstShelleyEpoch.toNat < epoch)
    (hslot : (config.slotToEpoch slot).toNat = epoch) : config.firstSlot epoch ≤ slot.toNat := by
  unfold firstSlot
  by_cases hstart : config.shelleyStart ≤ slot.toNat
  · have hcount := Nat.div_mul_le_self (slot.toNat - config.shelleyStart) config.epochSize.toNat
    rw [config.epochsSinceStart_eq hstart hepoch.le hslot] at hcount
    omega
  · rw [config.slotToEpoch_of_lt (not_le.mp hstart)] at hslot
    have hzero : (0 : UInt64).toNat = 0 := rfl
    omega

/-- The slots of one epoch's length from the first slot on are in that epoch. -/
theorem slotToEpoch_of_mem (hsize : 0 < config.epochSize)
    (hepoch : config.firstShelleyEpoch ≤ epoch) (hlow : config.firstSlot epoch.toNat ≤ slot.toNat)
    (hhigh : slot.toNat < config.firstSlot (epoch.toNat + 1)) :
    config.slotToEpoch slot = epoch := by
  have hsizeNat : 0 < config.epochSize.toNat := hsize
  have hepochNat : config.firstShelleyEpoch.toNat ≤ epoch.toNat := hepoch
  unfold firstSlot at hlow hhigh
  have hstep : epoch.toNat + 1 - config.firstShelleyEpoch.toNat =
      epoch.toNat - config.firstShelleyEpoch.toNat + 1 := by omega
  rw [hstep, add_mul] at hhigh
  have hquotient : (slot.toNat - config.shelleyStart) / config.epochSize.toNat =
      epoch.toNat - config.firstShelleyEpoch.toNat := by
    rw [Nat.div_eq_iff hsizeNat]
    omega
  have hfits := epoch.toNat_lt
  apply UInt64.toNat_inj.mp
  rw [config.slotToEpoch_toNat (by omega), hquotient]
  omega

end NonceEvolutionConfig

end Yggdrasil.Consensus.Nonce
