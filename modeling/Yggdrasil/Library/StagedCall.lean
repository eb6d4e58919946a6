import Yggdrasil.Library.FallibleLoop

/-!
# Calls that change their state as they go

A call in four parts: a guard, an entry that changes the state for good, work on a copy that is
then committed, and a loop over what is left to do, each round of which may still be refused.  An
error leaves the state as it is at that moment, up to `undo`, which a caller applies to what the
loop has done.

`StagedCall.run` gives the state after the call next to its outcome; `StagedCall.result` is the
same call seen by a caller who throws the state of a failed call away.
-/

namespace Yggdrasil.Library

variable {Error State Item : Type}

/-- A loop that keeps what its rounds did before the first failure. -/
def foldKeep (step : State → Item → Except Error State) : State → List Item →
    State × Except Error Unit
  | state, [] => (state, .ok ())
  | state, item :: rest =>
    match step state item with
    | .ok next => foldKeep step next rest
    | .error failure => (state, .error failure)

/-- Seen without the state of a failure, the loop is `List.foldlM`. -/
theorem foldKeep_map (step : State → Item → Except Error State) (state : State)
    (items : List Item) :
    (foldKeep step state items).2.map (fun _ => (foldKeep step state items).1) =
      items.foldlM step state := by
  induction items generalizing state with
  | nil => rfl
  | cons item rest ih =>
    rw [List.foldlM_cons, foldKeep]
    cases step state item with
    | error failure => rfl
    | ok next => exact ih next

/-- What every successful round keeps holds after the loop, failed or not. -/
theorem foldKeep_keeps {step : State → Item → Except Error State} (invariant : State → Prop)
    (hstep : ∀ state item next, invariant state → step state item = .ok next → invariant next)
    {items : List Item} {state : State} (hstart : invariant state) :
    invariant (foldKeep step state items).1 := by
  induction items generalizing state with
  | nil => exact hstart
  | cons item rest ih =>
    rw [foldKeep]
    cases hround : step state item with
    | error failure => exact hstart
    | ok next => exact ih (hstep state item next hstart hround)

/-- The parts of a call. -/
structure StagedCall (State Item Error : Type) where
  guard : State → Except Error Unit
  enter : State → State
  /-- The committed state and what is left to do, from the state after the entry. -/
  stage : State → Except Error (State × List Item)
  finish : State → Item → Except Error State
  /-- What is undone after a failure in the loop, given the state after the entry. -/
  undo : State → State → State
  close : State → State

namespace StagedCall

variable (call : StagedCall State Item Error)

/-- The call: the state it leaves, and whether it succeeded. -/
def run (state : State) : State × Except Error Unit :=
  match call.guard state with
  | .error failure => (state, .error failure)
  | .ok () =>
    match call.stage (call.enter state) with
    | .error failure => (call.enter state, .error failure)
    | .ok (committed, items) =>
      match foldKeep call.finish committed items with
      | (stopped, .error failure) => (call.undo (call.enter state) stopped, .error failure)
      | (done, .ok ()) => (call.close done, .ok ())

/-- The call without the state of a failure. -/
def result (state : State) : Except Error State := do
  call.guard state
  let (committed, items) ← call.stage (call.enter state)
  let done ← items.foldlM call.finish committed
  return call.close done

theorem run_map (state : State) :
    (call.run state).2.map (fun _ => (call.run state).1) = call.result state := by
  unfold run result
  cases call.guard state with
  | error failure => rfl
  | ok done =>
    cases call.stage (call.enter state) with
    | error failure => rfl
    | ok staged =>
      obtain ⟨committed, items⟩ := staged
      simp only [bind, Except.bind]
      rw [← foldKeep_map]
      cases foldKeep call.finish committed items with
      | mk stopped outcome => cases outcome <;> rfl

variable {state : State}

/-- A call that succeeds leaves its result. -/
theorem run_eq_ok {after : State} :
    call.run state = (after, .ok ()) ↔ call.result state = .ok after := by
  rw [← run_map]
  cases call.run state with
  | mk left outcome => cases outcome <;> simp [Except.map]

/-- A failed call leaves no trace: it stops at the guard, or before the commit with an entry that
changes nothing, or in a loop whose committed work and finished rounds amount to nothing. -/
def Traceless (state : State) : Prop :=
  match call.guard state with
  | .error _ => True
  | .ok () =>
    match call.stage (call.enter state) with
    | .error _ => call.enter state = state
    | .ok (committed, items) =>
      call.undo (call.enter state) (foldKeep call.finish committed items).1 = state

/-- **Atomic calls.**  A call that fails leaves the state alone exactly when it is traceless. -/
theorem run_unchanged_iff {failure : Error} (hfail : (call.run state).2 = .error failure) :
    (call.run state).1 = state ↔ call.Traceless state := by
  unfold run Traceless at *
  cases hguard : call.guard state with
  | error reason => simp
  | ok done =>
    rw [hguard] at hfail
    cases hstage : call.stage (call.enter state) with
    | error reason => simp
    | ok staged =>
      obtain ⟨committed, items⟩ := staged
      rw [hstage] at hfail
      dsimp only at hfail ⊢
      cases hloop : foldKeep call.finish committed items with
      | mk stopped outcome =>
        cases outcome with
        | error reason => simp
        | ok finished => simp [hloop] at hfail

end StagedCall

end Yggdrasil.Library
