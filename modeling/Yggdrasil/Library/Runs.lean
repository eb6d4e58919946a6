import Mathlib

/-!
# Runs of a labelled transition function

The components of the node are state machines driven one operation at a time.  This module
fixes the vocabulary that their safety statements share and proves the two rules those
statements are derived from:

* `invariant_of_legal`: what holds initially and is kept by every enabled step holds in every
  state a legal run visits;
* `invariant_iff_guarded`: when a step keeps the invariant *exactly* if a guard holds of the
  state before it, a whole run keeps the invariant exactly if every one of its steps is guarded.

Nothing here mentions the node: the state, the actions and the step are arbitrary.
-/

namespace Yggdrasil.Library

variable {State Action : Type*}

/-- A deterministic transition function with an initial state.  `enabled` says which actions
an environment may take in a state. -/
structure TransitionSystem (State Action : Type*) where
  start : State
  enabled : State → Action → Prop
  step : State → Action → State

namespace TransitionSystem

variable (sys : TransitionSystem State Action)

/-- The state reached by performing `actions` in order. -/
def run (actions : List Action) : State := actions.foldl sys.step sys.start

/-- Every action of the run is enabled in the state in which it is taken. -/
def Legal (actions : List Action) : Prop :=
  ∀ done action, done ++ [action] <+: actions → sys.enabled (sys.run done) action

@[simp] theorem run_nil : sys.run [] = sys.start := rfl

@[simp] theorem run_concat (done : List Action) (action : Action) :
    sys.run (done ++ [action]) = sys.step (sys.run done) action := by
  simp [run]

/-- Legality of the remaining actions from a given state, by recursion on the actions. -/
def LegalFrom (state : State) : List Action → Prop
  | [] => True
  | action :: rest => sys.enabled state action ∧ LegalFrom (sys.step state action) rest

instance decidableLegalFrom [∀ state action, Decidable (sys.enabled state action)]
    (state : State) : (actions : List Action) → Decidable (sys.LegalFrom state actions)
  | [] => inferInstanceAs (Decidable True)
  | action :: rest =>
    have := decidableLegalFrom (sys.step state action) rest
    inferInstanceAs (Decidable (_ ∧ _))

variable {actions : List Action}

theorem legal_of_legalFrom (hlegal : sys.LegalFrom sys.start actions) : sys.Legal actions := by
  -- generalised over the part of the run that is already done
  have hgeneral : ∀ (rest : List Action) (state : State), sys.LegalFrom state rest →
      ∀ done action, done ++ [action] <+: rest →
        sys.enabled (done.foldl sys.step state) action := by
    intro rest
    induction rest with
    | nil =>
      intro _ _ done action hvisited
      simp at hvisited
    | cons first rest ih =>
      intro state hfrom done action hvisited
      cases done with
      | nil =>
        obtain rfl : action = first := by simpa using hvisited
        exact hfrom.1
      | cons head done =>
        obtain ⟨rfl, htail⟩ := List.cons_prefix_cons.mp hvisited
        exact ih _ hfrom.2 done action htail
  exact hgeneral actions sys.start hlegal

theorem Legal.restrict {sys : TransitionSystem State Action} {done : List Action}
    (hlegal : sys.Legal actions) (hvisited : done <+: actions) : sys.Legal done :=
  fun earlier action hearlier => hlegal earlier action (hearlier.trans hvisited)

/-- The invariant rule: initially true and kept by every enabled step. -/
theorem invariant_of_legal (Inv : State → Prop) (hstart : Inv sys.start)
    (hstep : ∀ state action, sys.enabled state action → Inv state → Inv (sys.step state action))
    (hlegal : sys.Legal actions) : Inv (sys.run actions) := by
  induction actions using List.reverseRecOn with
  | nil => exact hstart
  | append_singleton done action ih =>
    rw [run_concat]
    have hdone : Inv (sys.run done) := ih (hlegal.restrict (List.prefix_append _ _))
    exact hstep _ _ (hlegal done action (List.prefix_refl _)) hdone

/-- The exact invariant rule.  `Aux` collects what is known of every visited state in any
case; under it a step out of an invariant state stays in the invariant if and only if its
guard holds. -/
theorem invariant_iff_guarded (Aux Inv : State → Prop) (Guard : State → Action → Prop)
    (haux : Aux sys.start) (hinv : Inv sys.start)
    (hauxStep : ∀ state action, sys.enabled state action → Aux state → Aux (sys.step state action))
    (hexact : ∀ state action, sys.enabled state action → Aux state → Inv state →
      (Inv (sys.step state action) ↔ Guard state action)) (hlegal : sys.Legal actions) :
    (∀ done, done <+: actions → Inv (sys.run done)) ↔
      ∀ done action, done ++ [action] <+: actions → Guard (sys.run done) action := by
  have hauxRun : ∀ done, done <+: actions → Aux (sys.run done) := fun done hdone =>
    sys.invariant_of_legal Aux haux hauxStep (hlegal.restrict hdone)
  constructor
  · intro hall done action hvisited
    have hdone : done <+: actions := (List.prefix_append _ _).trans hvisited
    have hnext := hall _ hvisited
    rw [run_concat] at hnext
    exact (hexact _ _ (hlegal done action hvisited) (hauxRun done hdone)
      (hall done hdone)).mp hnext
  · intro hguard done hvisited
    induction done using List.reverseRecOn with
    | nil => exact hinv
    | append_singleton earlier action ih =>
      have hearlier : earlier <+: actions := (List.prefix_append _ _).trans hvisited
      rw [run_concat]
      exact (hexact _ _ (hlegal earlier action hvisited) (hauxRun earlier hearlier)
        (ih hearlier)).mpr (hguard earlier action hvisited)

/-- The exact rule for a property that is weaker than the invariant: a guarded step keeps the
invariant, and a step out of the invariant that is not guarded loses the property. -/
theorem property_iff_guarded (Inv Good : State → Prop) (Guard : State → Action → Prop)
    (hinv : Inv sys.start) (hgood : ∀ state, Inv state → Good state)
    (hkeep : ∀ state action, sys.enabled state action → Inv state → Guard state action →
      Inv (sys.step state action))
    (hlose : ∀ state action, sys.enabled state action → Inv state →
      Good (sys.step state action) → Guard state action) (hlegal : sys.Legal actions) :
    (∀ done, done <+: actions → Good (sys.run done)) ↔
      ∀ done action, done ++ [action] <+: actions → Guard (sys.run done) action := by
  have hexact := sys.invariant_iff_guarded (fun _ => True) Inv Guard trivial hinv
    (fun _ _ _ _ => trivial)
    (fun state action henabled _ hstate => ⟨fun hnext => hlose state action henabled hstate
      (hgood _ hnext), hkeep state action henabled hstate⟩) hlegal
  refine ⟨fun hall => hexact.mp ?_, fun hguard done hdone => hgood _ (hexact.mpr hguard done hdone)⟩
  -- the invariant holds along the run, since no step loses the property
  intro done hvisited
  induction done using List.reverseRecOn with
  | nil => exact hinv
  | append_singleton earlier action ih =>
    have hearlier := ih ((List.prefix_append _ _).trans hvisited)
    have henabled := hlegal earlier action hvisited
    have hnext := hall _ hvisited
    rw [run_concat] at hnext ⊢
    exact hkeep _ _ henabled hearlier (hlose _ _ henabled hearlier hnext)

end TransitionSystem

end Yggdrasil.Library
