import Mathlib.Data.List.Nodup

/-!
# Parent links

Items that each name the item before them, or nothing, over a root that is an item or nothing.
The links form a forest on the root when every item climbs to it.

A forest survives a new item on the root or on an item that is there (`Forest.insert`), and the
removal of a set that contains everything that builds on it (`Forest.remove`); what is collected
upwards from a root is a forest on that root (`Collected.add`, `Collected.forest`).  `Chains.climbs` turns the
inductive notion into a path without repetition.
-/

namespace Yggdrasil.Library

variable {Id : Type}

/-- The item that each present item names as the one before it. -/
abbrev Links (Id : Type) := Id → Option (Option Id)

/-- An item chains to the root: it names the root, or an item that chains to it. -/
inductive Chains (links : Links Id) (root : Option Id) : Id → Prop
  | root {id : Id} (hlink : links id = some root) : Chains links root id
  | next {id before : Id} (hlink : links id = some (some before))
      (hbefore : Chains links root before) : Chains links root id

/-- Every item chains to the root. -/
def Forest (links : Links Id) (root : Option Id) : Prop :=
  ∀ id, (links id).isSome → Chains links root id

/-- The items on the way from an item to the root. -/
inductive Climbs (links : Links Id) (root : Option Id) : Id → List Id → Prop
  | root {id : Id} (hlink : links id = some root) : Climbs links root id [id]
  | next {id before : Id} {path : List Id} (hlink : links id = some (some before))
      (hbefore : Climbs links root before path) : Climbs links root id (id :: path)

variable {links other : Links Id} {root : Option Id} {id : Id}

/-- From every item on the way, the way goes on to the root. -/
theorem Climbs.suffix {path : List Id} (hclimbs : Climbs links root id path) {later : Id}
    (hlater : later ∈ path) : ∃ rest, rest <:+ path ∧ Climbs links root later rest := by
  induction hclimbs with
  | root hlink =>
    rw [List.mem_singleton.mp hlater]
    exact ⟨_, List.suffix_rfl, .root hlink⟩
  | next hlink hbefore ih =>
    rcases List.mem_cons.mp hlater with rfl | hrest
    · exact ⟨_, List.suffix_rfl, .next hlink hbefore⟩
    · obtain ⟨rest, hsuffix, hclimbs⟩ := ih hrest
      exact ⟨rest, hsuffix.trans (List.suffix_cons _ _), hclimbs⟩

/-- An item that chains to the root climbs to it without a cycle. -/
theorem Chains.climbs (hchains : Chains links root id) :
    ∃ path, Climbs links root id path ∧ path.Nodup := by
  induction hchains with
  | root hlink => exact ⟨_, .root hlink, List.nodup_singleton _⟩
  | @next id before hlink _ ih =>
    obtain ⟨path, hclimbs, hnodup⟩ := ih
    by_cases hmem : id ∈ path
    · -- the way comes back: take the part after that
      obtain ⟨rest, hsuffix, hrest⟩ := hclimbs.suffix hmem
      exact ⟨rest, hrest, hnodup.sublist hsuffix.sublist⟩
    · exact ⟨id :: path, .next hlink hclimbs, List.nodup_cons.mpr ⟨hmem, hnodup⟩⟩

theorem Chains.isSome (hchains : Chains links root id) : (links id).isSome := by
  cases hchains with
  | root hlink | next hlink _ => rw [hlink, Option.isSome_some]

theorem Chains.mono (hchains : Chains links root id)
    (hkept : ∀ item before, links item = some before → other item = some before) :
    Chains other root id := by
  induction hchains with
  | root hlink => exact .root (hkept _ _ hlink)
  | next hlink _ ih => exact .next (hkept _ _ hlink) ih

theorem Forest.parent (hforest : Forest links root) {before : Option Id}
    (hlink : links id = some before) :
    before = root ∨ ∃ parent, before = some parent ∧ (links parent).isSome := by
  cases hforest id (by rw [hlink, Option.isSome_some]) with
  | root hroot =>
    rw [hlink] at hroot
    exact .inl (Option.some.inj hroot)
  | next hnext hbefore =>
    rw [hlink] at hnext
    exact .inr ⟨_, Option.some.inj hnext, hbefore.isSome⟩

theorem Forest.insert (hforest : Forest links root) {before : Option Id} (hnew : links id = none)
    (hbefore : before = root ∨ ∃ parent, before = some parent ∧ (links parent).isSome)
    (hlink : other id = some before) (hothers : ∀ item, item ≠ id → other item = links item) :
    Forest other root := by
  have hkept : ∀ item named, links item = some named → other item = some named := by
    intro item named hitem
    have hne : item ≠ id := by
      rintro rfl
      rw [hnew] at hitem
      cases hitem
    rw [hothers item hne, hitem]
  intro item hitem
  by_cases heq : item = id
  · rw [heq]
    rcases hbefore with rfl | ⟨parent, rfl, hparent⟩
    · exact .root hlink
    · exact .next hlink ((hforest parent hparent).mono hkept)
  · rw [hothers item heq] at hitem
    exact (hforest item hitem).mono hkept

/-- The removal of a set that contains what builds on it. -/
theorem Forest.remove (hforest : Forest links root) {removed : Id → Prop}
    (hgone : ∀ item, removed item → other item = none)
    (hkept : ∀ item, ¬ removed item → other item = links item)
    (hclosed : ∀ item parent, links item = some (some parent) → removed parent → removed item) :
    Forest other root := by
  have hchains : ∀ item, Chains links root item → ¬ removed item → Chains other root item := by
    intro item hchains
    induction hchains with
    | root hlink => exact fun hitem => .root ((hkept _ hitem).trans hlink)
    | next hlink _ ih =>
      exact fun hitem => .next ((hkept _ hitem).trans hlink)
        (ih fun hparent => hitem (hclosed _ _ hlink hparent))
  intro item hitem
  have hstays : ¬ removed item := by
    intro hremoved
    rw [hgone item hremoved] at hitem
    cases hitem
  rw [hkept item hstays] at hitem
  exact hchains item (hforest item hitem) hstays

section

variable [DecidableEq Id]

/-- The links among some items. -/
def among (links : Links Id) (items : List Id) : Links Id :=
  fun id => if id ∈ items then links id else none

/-- The items chain to the root among themselves. -/
def Collected (links : Links Id) (root : Option Id) (items : List Id) : Prop :=
  ∀ id ∈ items, Chains (among links items) root id

variable {items : List Id}

theorem collected_nil : Collected links root [] := fun _ hmem => absurd hmem List.not_mem_nil

/-- One more item, on the root or on one that is collected. -/
theorem Collected.add (hitems : Collected links root items) {before : Option Id}
    (hlink : links id = some before)
    (hbefore : before = root ∨ ∃ parent ∈ items, before = some parent) :
    Collected links root (items ++ [id]) := by
  have hkept : ∀ item named, among links items item = some named →
      among links (items ++ [id]) item = some named := by
    intro item named hitem
    unfold among at hitem ⊢
    split at hitem
    · next hmem => rw [if_pos (List.mem_append_left _ hmem), hitem]
    · cases hitem
  have hnew : among links (items ++ [id]) id = some before := by
    rw [among, if_pos (by simp), hlink]
  intro item hitem
  rcases List.mem_append.mp hitem with hold | hlast
  · exact (hitems item hold).mono hkept
  · rw [List.mem_singleton.mp hlast]
    rcases hbefore with rfl | ⟨parent, hparent, rfl⟩
    · exact .root hnew
    · exact .next hnew ((hitems parent hparent).mono hkept)

theorem Collected.forest (hitems : Collected links root items) :
    Forest (among links items) root := by
  intro id hid
  refine hitems id ?_
  by_contra hmem
  rw [among, if_neg hmem] at hid
  cases hid

end

end Yggdrasil.Library
