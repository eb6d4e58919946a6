import Yggdrasil.Ledger.Types
import Yggdrasil.Library.Runs

/-!
# The density window

`crates/consensus/src/genesis_density.rs` counts the headers of a peer in the last slots of its
chain with a single counter.  When the window slides, the counter loses one for every slot slid
over, as if each slot had held a header, but never more than it has.  On a sparse chain that is
more than leave the window; `headersSeen_iff` says exactly when the counter stays right.
-/

namespace Yggdrasil.Consensus

open Ledger Library

/-- A window of slots up to the last header.  `headersSeen` is a 32-bit word. -/
structure DensityWindow where
  slotWindow : UInt64
  headersSeen : Nat
  lastSlot : Option SlotNo
  windowStart : Nat
deriving DecidableEq, Repr

namespace DensityWindow

/-- The empty window; the source refuses to make one of size zero. -/
def withWindow (slotWindow : UInt64) : DensityWindow := ⟨slotWindow, 0, none, 0⟩

/-- Move the start of the window forward. -/
def slide (newWindowStart : Nat) (window : DensityWindow) : DensityWindow :=
  if window.windowStart < newWindowStart then
    let dropped := min (newWindowStart - window.windowStart) window.headersSeen
    { window with
      headersSeen := window.headersSeen - dropped
      windowStart := newWindowStart }
  else window

/-- Observe a header; one before the last is refused. -/
def observeHeader (slot : SlotNo) (window : DensityWindow) : DensityWindow × Bool :=
  if window.lastSlot.any (slot < ·) then (window, false)
  else
    let slid := window.slide (slot.toNat - window.slotWindow.toNat)
    ({ slid with
        headersSeen := min (slid.headersSeen + 1) (2 ^ 32 - 1)
        lastSlot := some slot }, true)

end DensityWindow

/-- A window and the headers it has observed, the last one first. -/
structure Observed where
  window : DensityWindow
  slots : List SlotNo

/-- The headers in the window that ends with the last one. -/
def headersWithin (slotWindow : UInt64) (slots : List SlotNo) : Nat :=
  match slots with
  | [] => 0
  | last :: _ => slots.countP fun slot =>
      last.toNat - slotWindow.toNat ≤ slot.toNat ∧ slot ≤ last

/-- Headers with increasing slots, fewer than the counter can count. -/
def observations (slotWindow : UInt64) : TransitionSystem Observed SlotNo where
  start := ⟨.withWindow slotWindow, []⟩
  enabled state slot := (∀ last ∈ state.window.lastSlot, last < slot) ∧
    state.slots.length + 1 < 2 ^ 32
  step state slot := ⟨(state.window.observeHeader slot).1, slot :: state.slots⟩

namespace Observed

/-- The counter is the number of headers in the window. -/
def CountsHeaders (state : Observed) : Prop :=
  state.window.headersSeen = headersWithin state.window.slotWindow state.slots

/-- As many headers leave the window as it slides over slots, or all of them. -/
def SlidesExactly (state : Observed) (slot : SlotNo) : Prop :=
  let start := state.window.windowStart
  let next := slot.toNat - state.window.slotWindow.toNat
  state.slots.countP (fun earlier => start ≤ earlier.toNat ∧ earlier.toNat < next) =
    min (next - start) (headersWithin state.window.slotWindow state.slots)

/-- What is known of every state: the window ends with the last header. -/
structure Tracks (state : Observed) : Prop where
  last : state.window.lastSlot = state.slots.head?
  start : state.window.windowStart =
    state.slots.head?.elim 0 fun last => last.toNat - state.window.slotWindow.toNat
  below : ∀ slot ∈ state.slots, ∃ last ∈ state.window.lastSlot, slot ≤ last
  size : state.window.headersSeen ≤ state.slots.length

variable {state : Observed} {slot : SlotNo}

theorem Tracks.headersWithin_eq (htracks : state.Tracks) :
    headersWithin state.window.slotWindow state.slots =
      state.slots.countP fun slot => state.window.windowStart ≤ slot.toNat := by
  obtain ⟨window, slots⟩ := state
  cases slots with
  | nil => rfl
  | cons last earlier =>
    rw [htracks.start]
    refine List.countP_congr fun slot hslot => ?_
    obtain ⟨other, hother, hle⟩ := htracks.below slot hslot
    obtain rfl := Option.some.inj (hother.symm.trans htracks.last)
    simp [hle]

theorem countP_from (slots : List SlotNo) {start next : Nat} (hle : start ≤ next) :
    slots.countP (fun slot => start ≤ slot.toNat) =
      slots.countP (fun slot => start ≤ slot.toNat ∧ slot.toNat < next) +
        slots.countP fun slot => next ≤ slot.toNat := by
  induction slots with
  | nil => rfl
  | cons slot rest ih =>
    simp only [List.countP_cons, decide_eq_true_eq]
    split_ifs <;> omega

theorem headersSeen_slide (window : DensityWindow) (next : Nat) :
    (window.slide next).headersSeen = window.headersSeen - (next - window.windowStart) := by
  unfold DensityWindow.slide
  split
  · dsimp only
    omega
  · omega

theorem windowStart_slide {window : DensityWindow} {next : Nat} (hle : window.windowStart ≤ next) :
    (window.slide next).windowStart = next := by
  unfold DensityWindow.slide
  split
  · rfl
  · omega

section

variable (htracks : state.Tracks)
  (hlater : ∀ last ∈ state.window.lastSlot, last < slot)
include htracks hlater

theorem windowStart_le : state.window.windowStart ≤ slot.toNat - state.window.slotWindow.toNat := by
  obtain ⟨window, slots⟩ := state
  cases slots with
  | nil => exact htracks.start.trans_le (Nat.zero_le _)
  | cons last earlier =>
    have hless := (hlater last htracks.last)
    exact htracks.start.trans_le (Nat.sub_le_sub_right hless.le _)

theorem observeHeader_eq (hsize : state.slots.length + 1 < 2 ^ 32) :
    (state.window.observeHeader slot).1 =
      { state.window.slide (slot.toNat - state.window.slotWindow.toNat) with
        headersSeen := state.window.headersSeen -
          (slot.toNat - state.window.slotWindow.toNat - state.window.windowStart) + 1
        lastSlot := some slot } := by
  have hadmitted : ¬ state.window.lastSlot.any (slot < ·) = true := by
    rw [Option.any_eq_true]
    rintro ⟨last, hlast, hbefore⟩
    exact UInt64.lt_asymm (hlater last hlast) (of_decide_eq_true hbefore)
  have hseen := htracks.size
  unfold DensityWindow.observeHeader
  rw [if_neg hadmitted]
  simp only [headersSeen_slide]
  rw [min_eq_left (by omega)]

variable (slotWindow : UInt64)

theorem tracks_step (hsize : state.slots.length + 1 < 2 ^ 32) :
    ((observations slotWindow).step state slot).Tracks := by
  have hseen := htracks.size
  have hkept : (state.window.slide (slot.toNat - state.window.slotWindow.toNat)).slotWindow =
      state.window.slotWindow := by
    unfold DensityWindow.slide
    split <;> rfl
  have hstart := windowStart_slide (windowStart_le htracks hlater)
  have hnext : ((observations slotWindow).step state slot).window = _ :=
    observeHeader_eq htracks hlater hsize
  refine ⟨by rw [hnext]; rfl, ?_, fun earlier hearlier => ⟨slot, by rw [hnext]; rfl, ?_⟩, ?_⟩
  · rw [hnext, hstart, hkept]
    rfl
  · rcases List.mem_cons.mp hearlier with rfl | hmem
    · exact UInt64.le_refl _
    · obtain ⟨last, hlast, hle⟩ := htracks.below earlier hmem
      exact UInt64.le_trans hle (UInt64.le_of_lt (hlater last hlast))
  · rw [hnext]
    simp only [observations, List.length_cons]
    omega

/-- The counter stays right exactly if the slide is. -/
theorem countsHeaders_step_iff (hsize : state.slots.length + 1 < 2 ^ 32)
    (hcounts : state.CountsHeaders) :
    ((observations slotWindow).step state slot).CountsHeaders ↔ state.SlidesExactly slot := by
  have hnext := tracks_step htracks hlater slotWindow hsize
  have hwindow : ((observations slotWindow).step state slot).window = _ :=
    observeHeader_eq htracks hlater hsize
  have hstart := windowStart_le htracks hlater
  have hself : slot.toNat - state.window.slotWindow.toNat ≤ slot.toNat := Nat.sub_le _ _
  have hsplit := countP_from state.slots hstart
  unfold CountsHeaders SlidesExactly at *
  rw [hnext.headersWithin_eq, hwindow, windowStart_slide hstart, ← hcounts]
  rw [htracks.headersWithin_eq] at hcounts
  dsimp only [observations]
  rw [List.countP_cons, if_pos (decide_eq_true hself)]
  omega

end

/-- **When the counter is right.**  Along headers with increasing slots it is the number of headers
in the window, all the time, if and only if each slide drops what leaves. -/
theorem headersSeen_iff (slotWindow : UInt64) {slots : List SlotNo}
    (hlegal : (observations slotWindow).Legal slots) :
    (∀ done, done <+: slots → ((observations slotWindow).run done).CountsHeaders) ↔
      ∀ done slot, done ++ [slot] <+: slots →
        ((observations slotWindow).run done).SlidesExactly slot := by
  have hstart : (observations slotWindow).start.Tracks := ⟨rfl, rfl, nofun, le_rfl⟩
  refine (observations slotWindow).invariant_iff_guarded Tracks CountsHeaders SlidesExactly hstart
    rfl ?_ ?_ hlegal
  · exact fun state slot henabled htracks => tracks_step htracks henabled.1 slotWindow henabled.2
  · exact fun state slot henabled htracks hcounts =>
      countsHeaders_step_iff htracks henabled.1 slotWindow henabled.2 hcounts

/-- Two headers six slots apart, in a window of ten slots. -/
theorem sparseHeaders_legal : (observations 10).Legal [5, 11] :=
  (observations 10).legal_of_legalFrom ⟨⟨nofun, by decide⟩,
    ⟨by rintro _ ⟨⟩; decide, by decide⟩, trivial⟩

theorem sparseHeaders_slide :
    (∀ done, done <+: [5, 11] → ((observations 10).run done).CountsHeaders) ↔
      ∀ done slot, done ++ [slot] <+: [5, 11] → ((observations 10).run done).SlidesExactly slot :=
  headersSeen_iff 10 sparseHeaders_legal

/-- The window slides over slot 0, where no header was, and forgets the header at slot 5. -/
theorem sparseHeaders_miscounted :
    (observations 10).Legal [5, 11] ∧
      ((observations 10).run [5, 11]).window.headersSeen = 1 ∧
      headersWithin 10 ((observations 10).run [5, 11]).slots = 2 :=
  ⟨sparseHeaders_legal, by decide, by decide⟩

end Observed

end Yggdrasil.Consensus
