import Yggdrasil.Ledger.Types
import Yggdrasil.Library.Runs

/-!
# Egress accounting of the multiplexer

`ProtocolHandle::send` and the writer of `crates/network/src/mux.rs` share a counter of pending
bytes.  A call of `send` reads it, puts its payload into the channel and adds the length; the writer
takes a payload, writes it and subtracts the length.  The payload can be written before its length
is added, so that the counter wraps around, and it is counted for a while after it was written.  The
theorems say for every interleaving when the counter is right and that it does not drift.
-/

namespace Yggdrasil.Network

open Ledger Library

/-- Where the writer is: nothing in hand, a payload taken from the channel, or one that was written
and is still counted. -/
inductive Writer where
  | idle
  | taken (payload : Bytes)
  | written (payload : Bytes)
deriving DecidableEq, Repr

/-- One protocol's egress: the counter, the channel, the calls that have passed the check of the
limit, the calls that have yet to count their payload, and the writer. -/
structure Egress where
  egressBytes : UInt64
  channel : List Bytes
  admitted : List Bytes
  uncounted : List Bytes
  writer : Writer
deriving DecidableEq, Repr

inductive EgressStep where
  | read (payload : Bytes)
  | enqueue (payload : Bytes)
  | add (payload : Bytes)
  | dequeue
  | write
  | subtract
deriving DecidableEq, Repr

def totalLength (payloads : List Bytes) : Nat := (payloads.map List.length).sum

namespace Egress

/-- `send` returns `EgressBufferOverflow`. -/
def overflows (limit : UInt64) (egress : Egress) : Bool := limit < egress.egressBytes

/-- One atomic step of a call or of the writer.  `fetch_add` and `fetch_sub` wrap. -/
def step (limit : UInt64) (egress : Egress) : EgressStep → Egress
  | .read payload =>
    if egress.overflows limit then egress
    else { egress with admitted := payload :: egress.admitted }
  | .enqueue payload =>
    { egress with
      admitted := egress.admitted.erase payload
      channel := egress.channel ++ [payload]
      uncounted := payload :: egress.uncounted }
  | .add payload =>
    { egress with
      egressBytes := egress.egressBytes + .ofNat payload.length
      uncounted := egress.uncounted.erase payload }
  | .dequeue =>
    match egress.channel with
    | payload :: rest => { egress with channel := rest, writer := .taken payload }
    | [] => egress
  | .write =>
    match egress.writer with
    | .taken payload => { egress with writer := .written payload }
    | _ => egress
  | .subtract =>
    match egress.writer with
    | .written payload =>
      { egress with egressBytes := egress.egressBytes - .ofNat payload.length, writer := .idle }
    | _ => egress

/-- The bytes put into the channel and not yet written. -/
def unwritten (egress : Egress) : Nat :=
  totalLength egress.channel + match egress.writer with
    | .taken payload => payload.length
    | _ => 0

/-- The bytes of the payloads in memory. -/
def live (egress : Egress) : Nat :=
  totalLength egress.admitted + totalLength egress.channel + match egress.writer with
    | .idle => 0
    | .taken payload | .written payload => payload.length

/-- Which steps are possible.  The payloads that wait lie in memory together. -/
def Possible (capacity : Nat) (egress : Egress) : EgressStep → Prop
  | .read payload => egress.live + payload.length < 2 ^ 64
  | .enqueue payload => payload ∈ egress.admitted ∧ egress.channel.length < capacity
  | .add payload => payload ∈ egress.uncounted
  | .dequeue => egress.writer = .idle ∧ egress.channel ≠ []
  | .write => ∃ payload, egress.writer = .taken payload
  | .subtract => ∃ payload, egress.writer = .written payload

/-- The calls of `send` on one handle and the writer, in any order. -/
def system (limit : UInt64) (capacity : Nat) : TransitionSystem Egress EgressStep where
  start := ⟨0, [], [], [], .idle⟩
  enabled := Possible capacity
  step := step limit

/-- The counter does not exceed what is unwritten, and a call is refused only if more than the limit
is. -/
structure Accurate (limit : UInt64) (egress : Egress) : Prop where
  counter : egress.egressBytes.toNat ≤ egress.unwritten
  refusal : egress.overflows limit = true → limit.toNat < egress.unwritten

variable {limit : UInt64} {capacity : Nat} {egress : Egress}

theorem accurate_iff : egress.Accurate limit ↔ egress.egressBytes.toNat ≤ egress.unwritten := by
  refine ⟨Accurate.counter, fun hcounter => ⟨hcounter, fun hrefused => ?_⟩⟩
  have hless : limit.toNat < egress.egressBytes.toNat := of_decide_eq_true hrefused
  omega

theorem totalLength_erase {payload : Bytes} {payloads : List Bytes} (hmem : payload ∈ payloads) :
    totalLength (payloads.erase payload) + payload.length = totalLength payloads := by
  have hsum := ((List.perm_cons_erase hmem).map List.length).sum_eq
  rw [List.map_cons, List.sum_cons] at hsum
  unfold totalLength
  omega

theorem live_step (action : EgressStep) (hpossible : Possible capacity egress action)
    (hlive : egress.live < 2 ^ 64) : (egress.step limit action).live < 2 ^ 64 := by
  obtain ⟨egressBytes, channel, admitted, uncounted, writer⟩ := egress
  cases action with
  | read payload =>
    rw [step]
    split
    · exact hlive
    · unfold Possible at hpossible
      simp [live, totalLength] at hpossible ⊢
      omega
  | enqueue payload =>
    have herase := totalLength_erase hpossible.1
    simp [live, totalLength, step] at herase hlive ⊢
    omega
  | add payload => exact hlive
  | dequeue =>
    obtain ⟨rfl, hnonempty⟩ := hpossible
    obtain ⟨payload, rest, rfl⟩ := List.exists_cons_of_ne_nil hnonempty
    simp [live, totalLength, step] at hlive ⊢
    omega
  | write =>
    obtain ⟨payload, rfl⟩ := hpossible
    exact hlive
  | subtract =>
    obtain ⟨payload, rfl⟩ := hpossible
    simp [live, totalLength, step] at hlive ⊢
    omega

/-- Up to wrapping, the counter and what calls have yet to add make up the payloads in memory. -/
def Balanced (egress : Egress) : Prop :=
  (egress.egressBytes.toNat + totalLength egress.admitted + totalLength egress.uncounted) % 2 ^ 64 =
    egress.live % 2 ^ 64

theorem balanced_step (action : EgressStep) (hpossible : Possible capacity egress action)
    (hbalanced : egress.Balanced) : (egress.step limit action).Balanced := by
  obtain ⟨egressBytes, channel, admitted, uncounted, writer⟩ := egress
  unfold Balanced at *
  cases action with
  | read payload =>
    rw [step]
    split
    · exact hbalanced
    · simp [live, totalLength] at hbalanced ⊢
      omega
  | enqueue payload =>
    have herase := totalLength_erase hpossible.1
    simp [live, totalLength, step] at herase hbalanced ⊢
    omega
  | add payload =>
    have herase := totalLength_erase hpossible
    simp [live, totalLength, step] at herase hbalanced ⊢
    omega
  | dequeue =>
    obtain ⟨rfl, hnonempty⟩ := hpossible
    obtain ⟨payload, rest, rfl⟩ := List.exists_cons_of_ne_nil hnonempty
    simp [live, totalLength, step] at hbalanced ⊢
    omega
  | write =>
    obtain ⟨payload, rfl⟩ := hpossible
    exact hbalanced
  | subtract =>
    obtain ⟨payload, rfl⟩ := hpossible
    simp [live, totalLength, step, UInt64.toNat_sub] at hbalanced ⊢
    omega

/-! ## When the counter is right -/

/-- The calls have yet to add what is written and still counted, and no more than what lies in the
channel and with the writer. -/
structure Covered (egress : Egress) : Prop where
  written : ∀ payload, egress.writer = .written payload →
    payload.length ≤ totalLength egress.uncounted
  uncounted : totalLength egress.admitted + totalLength egress.uncounted ≤ egress.live

/-- What the lengths yet to be added have to cover: the payload that is written, as long as the
writer counts it.  When the writer subtracts, the channel has to cover them. -/
def InTime (egress : Egress) : EgressStep → Prop
  | .write => ∀ payload, egress.writer = .taken payload →
    payload.length ≤ totalLength egress.uncounted
  | .add payload => ∀ written, egress.writer = .written written →
    written.length + payload.length ≤ totalLength egress.uncounted
  | .subtract => totalLength egress.uncounted ≤ totalLength egress.channel
  | _ => True

/-- The counter is the rest of the bytes in memory, so that it is right if that rest is not
negative and leaves the written payload out. -/
theorem accurate_iff_covered (hmemory : egress.live < 2 ^ 64) (hbalanced : egress.Balanced)
    (hsmall : totalLength egress.uncounted < 2 ^ 64) : egress.Accurate limit ↔ egress.Covered := by
  have hword := egress.egressBytes.toNat_lt
  rw [accurate_iff]
  unfold Balanced at hbalanced
  obtain ⟨egressBytes, channel, admitted, uncounted, writer⟩ := egress
  refine ⟨fun hcounter => ⟨fun payload hwriter => ?_, ?_⟩, fun ⟨hwritten, huncounted⟩ => ?_⟩
  · obtain rfl : writer = .written payload := hwriter
    simp only [live, unwritten] at *
    omega
  all_goals
    cases writer <;> simp [live, unwritten] at * <;> omega

theorem covered_step_iff (action : EgressStep) (hpossible : Possible capacity egress action)
    (hcovered : egress.Covered) : (egress.step limit action).Covered ↔ egress.InTime action := by
  obtain ⟨egressBytes, channel, admitted, uncounted, writer⟩ := egress
  obtain ⟨hwritten, huncounted⟩ := hcovered
  cases action with
  | read payload =>
    refine iff_of_true ?_ trivial
    rw [step]
    split
    · exact ⟨hwritten, huncounted⟩
    · refine ⟨hwritten, ?_⟩
      simp [live, totalLength] at huncounted ⊢
      omega
  | enqueue payload =>
    have herase := totalLength_erase hpossible.1
    refine iff_of_true ⟨fun other hwriter => ?_, ?_⟩ trivial
    · have hother := hwritten other hwriter
      simp [totalLength, step] at hother ⊢
      omega
    · simp [live, totalLength, step] at herase huncounted ⊢
      omega
  | add payload =>
    have herase : totalLength (uncounted.erase payload) + payload.length = totalLength uncounted :=
      totalLength_erase hpossible
    constructor
    · intro hnext other hwriter
      have hother := hnext.written other hwriter
      simp only [step] at hother ⊢
      omega
    · intro htime
      refine ⟨fun other hwriter => ?_, ?_⟩
      · have hother := htime other hwriter
        simp only [step] at hother ⊢
        omega
      · simp only [live, step] at huncounted ⊢
        omega
  | dequeue =>
    obtain ⟨rfl, hnonempty⟩ := hpossible
    obtain ⟨payload, rest, rfl⟩ := List.exists_cons_of_ne_nil hnonempty
    refine iff_of_true ⟨nofun, ?_⟩ trivial
    simp [live, totalLength, step] at huncounted ⊢
    omega
  | write =>
    obtain ⟨payload, rfl⟩ := hpossible
    refine ⟨fun hnext other hwriter => hnext.written other ?_, fun htime => ⟨?_, huncounted⟩⟩
    · obtain rfl := Writer.taken.inj hwriter
      rfl
    · intro other hwriter
      obtain rfl := Writer.written.inj hwriter
      exact htime _ rfl
  | subtract =>
    obtain ⟨payload, rfl⟩ := hpossible
    refine ⟨fun hnext => ?_, fun htime => ⟨nofun, ?_⟩⟩
    · have hafter := hnext.uncounted
      simp only [live, step, InTime] at hafter ⊢
      omega
    · simp only [live, step, InTime] at htime ⊢
      omega

/-- What the calls have yet to add fits a word after a step, even if the channel does not cover
it. -/
theorem uncounted_step (action : EgressStep) (hpossible : Possible capacity egress action)
    (hmemory : egress.live < 2 ^ 64) (hcovered : egress.Covered) :
    totalLength (egress.step limit action).uncounted < 2 ^ 64 := by
  by_cases htime : egress.InTime action
  · have hlive : (egress.step limit action).live < 2 ^ 64 := live_step action hpossible hmemory
    have hnext : (egress.step limit action).Covered :=
      (covered_step_iff action hpossible hcovered).mpr htime
    have huncounted := hnext.uncounted
    omega
  · have huncounted := hcovered.uncounted
    have hless : totalLength (egress.step limit action).uncounted ≤ totalLength egress.uncounted := by
      cases action with
      | read payload | enqueue payload | dequeue => exact absurd trivial htime
      | add payload => exact Nat.le_of_add_right_le (totalLength_erase hpossible).le
      | write | subtract =>
        obtain ⟨payload, hwriter⟩ := hpossible
        simp [step, hwriter]
    omega

/-- **The counter is right after every step of an interleaving if and only if every step is in
time**: at a write the lengths yet to be added cover the payload, and without the one that is added
they still do so before the subtraction; at the subtraction the channel covers them. -/
theorem accurate_run_iff (limit : UInt64) (capacity : Nat) (steps : List EgressStep)
    (hlegal : (system limit capacity).Legal steps) :
    (∀ done, done <+: steps → ((system limit capacity).run done).Accurate limit) ↔
      ∀ done step, done ++ [step] <+: steps → ((system limit capacity).run done).InTime step := by
  refine (system limit capacity).property_iff_guarded
    (fun egress => egress.live < 2 ^ 64 ∧ egress.Balanced ∧ egress.Covered) (Accurate limit) InTime
    ⟨show 0 < 2 ^ 64 by decide, rfl, nofun, le_rfl⟩ ?_ ?_ ?_ hlegal
  · intro egress ⟨hmemory, hbalanced, hcovered⟩
    have huncounted := hcovered.uncounted
    exact (accurate_iff_covered hmemory hbalanced (by omega)).mpr hcovered
  · intro egress action hpossible ⟨hmemory, hbalanced, hcovered⟩ htime
    exact ⟨live_step action hpossible hmemory, balanced_step action hpossible hbalanced,
      (covered_step_iff action hpossible hcovered).mpr htime⟩
  · intro egress action hpossible ⟨hmemory, hbalanced, hcovered⟩ haccurate
    have hnext : (egress.step limit action).Covered :=
      (accurate_iff_covered (live_step action hpossible hmemory)
        (balanced_step action hpossible hbalanced)
        (uncounted_step action hpossible hmemory hcovered)).mp haccurate
    exact (covered_step_iff action hpossible hcovered).mp hnext

/-- Two calls put their payloads into the channel, and the second length is still to be added when
the first payload is written and subtracted. -/
def covering : List EgressStep :=
  [.read [0], .read [1, 2], .enqueue [0], .enqueue [1, 2], .add [0], .dequeue, .write, .subtract,
    .add [1, 2]]

theorem covering_accurate :
    (system 0x3ffff 8).Legal covering ∧
      ∀ done, done <+: covering → ((system 0x3ffff 8).run done).Accurate 0x3ffff :=
  have hlegal : (system 0x3ffff 8).Legal covering := (system 0x3ffff 8).legal_of_legalFrom
    ⟨show 1 < 2 ^ 64 by decide, show 3 < 2 ^ 64 by decide, ⟨.tail _ (.head _), by decide⟩,
      ⟨.head _, by decide⟩, .tail _ (.head _), ⟨rfl, nofun⟩, ⟨_, rfl⟩, ⟨_, rfl⟩, .head _, trivial⟩
  ⟨hlegal, (accurate_run_iff 0x3ffff 8 covering hlegal).mpr
    ({ system 0x3ffff 8 with enabled := InTime }.legal_of_legalFrom
      ⟨trivial, trivial, trivial, trivial, nofun, trivial, fun | _, rfl => Nat.le_succ 1, le_rfl,
        nofun, trivial⟩)⟩

/-- A payload is written off before its length is added, and another call reads the counter. -/
def overtaken : List EgressStep :=
  [.read [0], .enqueue [0], .dequeue, .write, .subtract, .read [1]]

theorem overtaken_legal : (system 0x3ffff 8).Legal overtaken :=
  (system 0x3ffff 8).legal_of_legalFrom
    ⟨show 1 < 2 ^ 64 by decide, ⟨.head _, by decide⟩, ⟨rfl, nofun⟩, ⟨_, rfl⟩, ⟨_, rfl⟩,
      show 1 < 2 ^ 64 by decide, trivial⟩

/-- **The counter wraps around, and a call is refused with nothing left to write.**  In the usual
order the counter is too large between the write and the subtraction. -/
theorem overtaken_refused :
    (system 0x3ffff 8).Legal overtaken ∧
      ((system 0x3ffff 8).run overtaken).egressBytes = 0xffffffffffffffff ∧
      ((system 0x3ffff 8).run overtaken).unwritten = 0 ∧
      ((system 0x3ffff 8).run overtaken).overflows 0x3ffff = true ∧
      ((system 0x3ffff 8).run [.read [0], .enqueue [0], .add [0], .dequeue, .write]).egressBytes = 1 ∧
      ((system 0x3ffff 8).run [.read [0], .enqueue [0], .add [0], .dequeue, .write]).unwritten = 0 :=
  ⟨overtaken_legal, by decide, by decide, by decide, by decide, by decide⟩

/-- **The counter does not drift.**  However the steps interleaved and wrapped, whenever no call has
a length to add the counter is what lies in the channel and with the writer. -/
theorem egressBytes_run (limit : UInt64) (capacity : Nat) (steps : List EgressStep)
    (hlegal : (system limit capacity).Legal steps)
    (hcounted : ((system limit capacity).run steps).uncounted = []) :
    ((system limit capacity).run steps).egressBytes.toNat +
        totalLength ((system limit capacity).run steps).admitted =
      ((system limit capacity).run steps).live := by
  obtain ⟨hmemory, hbalanced⟩ := (system limit capacity).invariant_of_legal
    (fun egress => egress.live < 2 ^ 64 ∧ egress.Balanced) ⟨show 0 < 2 ^ 64 by decide, rfl⟩
    (fun _ action hpossible hboth =>
      ⟨live_step action hpossible hboth.1, balanced_step action hpossible hboth.2⟩) hlegal
  have hword := ((system limit capacity).run steps).egressBytes.toNat_lt
  have hnone : totalLength [] = 0 := rfl
  rw [Balanced, hcounted, hnone] at hbalanced
  -- the channel and the writer hold less than the counter can wrap around
  unfold live at *
  omega

/-- A counter that wrapped is back at zero once the late length is added. -/
theorem egressBytes_late :
    ((system 0x3ffff 8).run [.read [0], .enqueue [0], .dequeue, .write, .subtract, .add [0]]
      ).egressBytes.toNat + 0 = 0 :=
  egressBytes_run 0x3ffff 8 _ ((system 0x3ffff 8).legal_of_legalFrom
    ⟨show 1 < 2 ^ 64 by decide, ⟨.head _, by decide⟩, ⟨rfl, nofun⟩, ⟨_, rfl⟩, ⟨_, rfl⟩, .head _,
      trivial⟩) rfl

end Egress

end Yggdrasil.Network
