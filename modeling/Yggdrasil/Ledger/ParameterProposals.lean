import Yggdrasil.Ledger.EpochBoundary

/-!
# Parameter proposals and block counts

What a block adds to the part of the state that the next epoch boundary reads: the votes of
genesis keys for new protocol parameters (`validate_ppup_proposal`, `collect_pparam_proposals`)
and the count of blocks by pool, overlay slots apart (`state.rs`, `state/ppup.rs`).
-/

namespace Yggdrasil.Ledger

open Library

/-! ## Votes for new parameters -/

structure ShelleyUpdate where
  proposedProtocolParameterUpdates : KeyedMap Hash28 ProtocolParameterUpdate
  epoch : EpochNo
deriving DecidableEq

namespace ShelleyUpdate

/-- The votes in the order of the genesis keys. -/
def votes (update : ShelleyUpdate) : List (Hash28 × ProtocolParameterUpdate) :=
  (KeyedMap.pairs update.proposedProtocolParameterUpdates).insertionSort fun a b =>
    a.1.toNat ≤ b.1.toNat

end ShelleyUpdate

structure PpupSlotContext where
  slot : SlotNo
  firstSlotNextEpoch : SlotNo
  stabilityWindow : UInt64
deriving DecidableEq, Repr

/-- From this slot on votes count for the epoch after the next boundary. -/
def PpupSlotContext.tooLate (context : PpupSlotContext) : SlotNo :=
  saturatingSub context.firstSlotNextEpoch context.stabilityWindow

/-- The context of a slot; none without a stability window or an epoch length. -/
def ppupSlotContext {Update Other : Type} (rest : LedgerRest Update Other) (slot : SlotNo) :
    Option PpupSlotContext :=
  rest.stabilityWindow.bind fun window =>
    if rest.slotsPerEpoch = 0 then none
    else some ⟨slot, epochFirstSlot rest (rest.currentEpoch + 1), window⟩

def pvCanFollow (current new : UInt64 × UInt64) : Bool :=
  (new.1 = current.1 + 1 ∧ new.2 = 0) ∨ (new.1 = current.1 ∧ new.2 = current.2 + 1)

/-- The epoch that a vote at this slot has to name. -/
def checkTargetEpoch (currentEpoch targetEpoch : EpochNo) : Option PpupSlotContext → Result Unit
  | some context =>
    if context.slot < context.tooLate then
      rejectIf (targetEpoch ≠ currentEpoch)
        (.ppUpdateWrongEpoch currentEpoch targetEpoch currentEpoch "VoteForThisEpoch")
    else
      rejectIf (targetEpoch ≠ currentEpoch + 1)
        (.ppUpdateWrongEpoch currentEpoch targetEpoch (currentEpoch + 1) "VoteForNextEpoch")
  | none =>
    rejectIf (targetEpoch ≠ currentEpoch ∧ targetEpoch ≠ currentEpoch + 1)
      (.ppUpdateWrongEpoch currentEpoch targetEpoch currentEpoch
        "VoteForThisEpoch or VoteForNextEpoch")

def validatePpupProposal (state : BoundaryState) (context : Option PpupSlotContext)
    (update : ShelleyUpdate) : Result Unit := do
  update.votes.forM fun vote =>
    rejectIf (state.rest.genDelegs.lookup vote.1).isNone (.nonGenesisUpdatePPUP vote.1)
  checkTargetEpoch state.rest.currentEpoch update.epoch context
  (state.protocolParams.bind (·.protocolVersion)).forM fun current =>
    update.votes.forM fun vote => vote.2.protocolVersion.forM fun new =>
      rejectIf (¬ pvCanFollow current new)
        (.pvCannotFollowPPUP current.1 current.2 new.1 new.2)

/-- Record the votes of an update; a later vote of a key replaces its earlier one. -/
def collectPparamProposals (update : ShelleyUpdate) (pending : PendingPparamUpdates) :
    PendingPparamUpdates :=
  pending.insert update.epoch (KeyedMap.insertAll
    (KeyedMap.pairs update.proposedProtocolParameterUpdates)
    ((pending.lookup update.epoch).getD ∅))

/-- The update of a transaction, checked and recorded. -/
def collectUpdate (slot : SlotNo) (state : BoundaryState) (pending : PendingPparamUpdates)
    (update : ShelleyUpdate) : Result PendingPparamUpdates := do
  validatePpupProposal state (ppupSlotContext state.rest slot) update
  return collectPparamProposals update pending

/-- The part of the state that the updates of a block change. -/
def EpochState.withUpdates (state : BoundaryState) (slot : SlotNo)
    (updates : List ShelleyUpdate) : Result EpochState := do
  let pending ← updates.foldlM (collectUpdate slot state) state.rest.other.pendingPparamUpdates
  return { state.rest.other with pendingPparamUpdates := pending }

/-! ## Blocks by pool -/

/-- The overlay slots among the first `offset` slots of an epoch. -/
def overlayStep (offset : UInt64) (d : UnitInterval) : Nat :=
  if d.denominator = 0 then 0
  else (offset.toNat * d.numerator.toNat + d.denominator.toNat - 1) / d.denominator.toNat

def isOverlaySlotForBlocksMade (firstSlot : SlotNo) (d : UnitInterval) (slot : SlotNo) : Bool :=
  if d.numerator = 0 ∨ d.denominator = 0 ∨ slot < firstSlot then false
  else
    let offset := slot - firstSlot
    overlayStep offset d < overlayStep (saturatingAdd offset 1) d

def shouldCountBlockProducer (state : BoundaryState) (slot : SlotNo) : Bool :=
  match state.protocolParams.bind (·.d) with
  | none => true
  | some d =>
    state.rest.slotsPerEpoch = 0 ∨
      ¬ isOverlaySlotForBlocksMade (epochFirstSlot state.rest state.rest.currentEpoch) d slot

/-- Count a block of the pool, unless its slot belongs to the overlay.  The source asks the
parameters from before the block; the version that a block adopts leaves `d` alone. -/
def recordBlockProducer (pool : PoolKeyHash) (slot : SlotNo) (state : BoundaryState) : EpochState :=
  let other := state.rest.other
  if shouldCountBlockProducer state slot then
    { other with
      blocksMade := other.blocksMade.insert pool ((other.blocksMade.lookup pool).getD 0 + 1) }
  else other

end Yggdrasil.Ledger
