import Mathlib

/-!
# Bookkeeping along a loop

The loop `List.foldlM step` in `Except`, with quantities summed over its rounds and conditions
asked of every round, both at the state the round starts from.  One lemma about a single round
then gives what the whole loop does to a measure of the state.  The last section does the same
for `List.foldl`.
-/

namespace Yggdrasil.Library

universe u v w x

variable {Error : Type u} {State : Type v} {Item : Type w}

/-- A quantity of the rounds, summed up to the end or the first failure. -/
def sumAlong {Amount : Type x} [AddMonoid Amount] (step : State → Item → Except Error State)
    (amount : State → Item → Amount) : State → List Item → Amount
  | _, [] => 0
  | state, item :: rest =>
    amount state item +
      match step state item with
      | .ok next => sumAlong step amount next rest
      | .error _ => 0

/-- A condition holds in every round up to the end or the first failure. -/
def Along (step : State → Item → Except Error State) (condition : State → Item → Prop) :
    State → List Item → Prop
  | _, [] => True
  | state, item :: rest =>
    condition state item ∧ ∀ next, step state item = .ok next → Along step condition next rest

variable {Amount : Type x} {step : State → Item → Except Error State}

variable {condition : State → Item → Prop} {items : List Item}

theorem along_of_forall (hall : ∀ item ∈ items, ∀ state, condition state item) (state : State) :
    Along step condition state items := by
  induction items generalizing state with
  | nil => trivial
  | cons item rest ih =>
    refine ⟨hall item List.mem_cons_self state, fun next _ => ?_⟩
    exact ih (fun later hlater => hall later (List.mem_cons_of_mem _ hlater)) next

variable {final state : State}

/-- A round that succeeds is followed by the loop over the rest. -/
theorem foldlM_cons_eq_ok {item : Item} {rest : List Item} :
    (item :: rest).foldlM step state = .ok final ↔
      ∃ next, step state item = .ok next ∧ rest.foldlM step next = .ok final := by
  rw [List.foldlM_cons]
  cases step state item with
  | error failure | ok next => simp [bind, Except.bind]

/-- A measure that every round changes by the round's amount has changed by their sum. -/
theorem measure_foldlM [AddMonoid Amount] (invariant : State → Prop) (measure : State → Amount)
    (amount : State → Item → Amount)
    (hkeep : ∀ state item next, invariant state → condition state item →
      step state item = .ok next → invariant next)
    (hstep : ∀ state item next, invariant state → condition state item →
      step state item = .ok next → measure next = measure state + amount state item)
    {items : List Item} {state final : State} (hstart : invariant state)
    (halong : Along step condition state items) (hrun : items.foldlM step state = .ok final) :
    measure final = measure state + sumAlong step amount state items := by
  induction items generalizing state with
  | nil =>
    cases hrun
    rw [sumAlong, add_zero]
  | cons item rest ih =>
    obtain ⟨next, hnext, hrest⟩ := foldlM_cons_eq_ok.mp hrun
    have hround := hstep state item next hstart halong.1 hnext
    have hlater := ih (hkeep state item next hstart halong.1 hnext) (halong.2 next hnext) hrest
    rw [hlater, hround, sumAlong, hnext, add_assoc]

theorem sumAlong_sub [AddCommGroup Amount] (step : State → Item → Except Error State)
    (first second : State → Item → Amount) (state : State) (items : List Item) :
    sumAlong step (fun state item => first state item - second state item) state items =
      sumAlong step first state items - sumAlong step second state items := by
  induction items generalizing state with
  | nil => simp [sumAlong]
  | cons item rest ih =>
    rw [sumAlong, sumAlong, sumAlong]
    cases step state item with
    | error failure => simp
    | ok next =>
      dsimp only
      rw [ih]
      abel

/-- Rounds that contribute nothing add up to nothing. -/
theorem sumAlong_zero [AddMonoid Amount] (step : State → Item → Except Error State) (state : State)
    (items : List Item) :
    sumAlong step (fun _ _ => (0 : Amount)) state items = 0 := by
  induction items generalizing state with
  | nil => rfl
  | cons item rest ih =>
    rw [sumAlong, zero_add]
    cases step state item with
    | error failure => rfl
    | ok next => exact ih next

/-- What does not depend on the states is summed along the list. -/
theorem sumAlong_of_foldlM [AddMonoid Amount] (amount : Item → Amount)
    (hrun : items.foldlM step state = .ok final) :
    sumAlong step (fun _ item => amount item) state items = (items.map amount).sum := by
  induction items generalizing state with
  | nil => rfl
  | cons item rest ih =>
    obtain ⟨next, hnext, hrest⟩ := foldlM_cons_eq_ok.mp hrun
    rw [sumAlong, hnext]
    exact congrArg (amount item + ·) (ih hrest)

/-! ## Loops that cannot fail -/

/-- A quantity of the rounds, summed over all of them. -/
def sumOver {Amount : Type x} [AddMonoid Amount] (step : State → Item → State)
    (amount : State → Item → Amount) : State → List Item → Amount
  | _, [] => 0
  | state, item :: rest => amount state item + sumOver step amount (step state item) rest

/-- What no round changes is as before. -/
theorem foldl_keeps {Part : Type x} {step : State → Item → State} (part : State → Part)
    (hstep : ∀ state item, part (step state item) = part state) (items : List Item)
    (state : State) : part (items.foldl step state) = part state := by
  induction items generalizing state with
  | nil => rfl
  | cons item rest ih => rw [List.foldl_cons, ih, hstep]

/-- Something holds after a fold if and only if it did before, or some item brings it. -/
theorem foldl_iff_exists (step : State → Item → State) (shows : State → Prop)
    (brings : Item → Prop)
    (hstep : ∀ state item, shows (step state item) ↔ shows state ∨ brings item)
    (items : List Item) (state : State) :
    shows (items.foldl step state) ↔ shows state ∨ ∃ item ∈ items, brings item := by
  induction items generalizing state with
  | nil => simp
  | cons item rest ih =>
    rw [List.foldl_cons, ih, hstep]
    simp [or_assoc]

/-- A measure that every round raises by the item's amount, while it stays within a bound, is raised
by the sum if that stays within the bound. -/
theorem measure_foldl_of_le (step : State → Item → State) (inv : State → Prop)
    (measure : State → Nat) (amount : Item → Nat) (bound : Nat) (items : List Item)
    (hstep : ∀ state, ∀ item ∈ items, inv state → measure state + amount item ≤ bound →
      inv (step state item) ∧ measure (step state item) = measure state + amount item)
    {state : State} (hinv : inv state) (hfits : measure state + (items.map amount).sum ≤ bound) :
    inv (items.foldl step state) ∧
      measure (items.foldl step state) = measure state + (items.map amount).sum := by
  induction items generalizing state with
  | nil => exact ⟨hinv, rfl⟩
  | cons item rest ih =>
    rw [List.map_cons, List.sum_cons] at hfits ⊢
    obtain ⟨hnext, hraised⟩ := hstep state item List.mem_cons_self hinv (by omega)
    obtain ⟨hfinal, htotal⟩ := ih
      (fun state item hmem => hstep state item (List.mem_cons_of_mem _ hmem)) hnext (by omega)
    exact ⟨hfinal, by rw [List.foldl_cons, htotal]; omega⟩

end Yggdrasil.Library
