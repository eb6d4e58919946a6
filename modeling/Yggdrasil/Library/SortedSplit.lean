import Mathlib

/-!
# Splitting an ordered list at a downward closed condition

A list whose elements do not decrease is the part that satisfies a downward closed condition
followed by the part that does not.
-/

namespace Yggdrasil.Library

variable {α : Type*}

theorem filter_append_filter_not_of_pairwise (r : α → α → Prop) (p : α → Bool)
    (hclosed : ∀ a b, r a b → p b = true → p a = true) {xs : List α} (hsorted : xs.Pairwise r) :
    xs.filter p ++ xs.filter (fun a => !p a) = xs := by
  induction xs with
  | nil => rfl
  | cons a rest ih =>
    obtain ⟨hfirst, hrest⟩ := List.pairwise_cons.mp hsorted
    cases hp : p a with
    | true => simp [hp, ih hrest]
    | false =>
      -- nothing after an element outside satisfies the condition
      have hnone : rest.filter p = [] := by
        rw [List.filter_eq_nil_iff]
        intro b hb hpb
        rw [hclosed a b (hfirst b hb) hpb] at hp
        exact nomatch hp
      have htail := ih hrest
      rw [hnone, List.nil_append] at htail
      simp [hp, hnone, htail]

end Yggdrasil.Library
