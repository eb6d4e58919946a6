import Mathlib

/-!
# Items held by at most one holder, with a shared index

A table that records which items each holder has, and an index of all held items kept next to
it.  The two agree, and no item has two holders, in a `Coherent` table.  Claiming and releasing
items update table and index without looking at other holders, so each keeps the table coherent
exactly when no other holder has the item; dropping a holder and purging items always do.
-/

namespace Yggdrasil.Library

variable {Holder Item : Type*}

/-- The items of each holder, and the index. -/
@[ext] structure Holdings (Holder Item : Type*) where
  held : Holder → Set Item
  index : Set Item

namespace Holdings

/-- No item has two holders and the index holds exactly the held items. -/
structure Coherent (table : Holdings Holder Item) : Prop where
  unique : ∀ a b item, item ∈ table.held a → item ∈ table.held b → a = b
  index_eq : table.index = ⋃ holder, table.held holder

/-- Some holder other than `holder` has the item. -/
def HeldElsewhere (table : Holdings Holder Item) (holder : Holder) (item : Item) : Prop :=
  ∃ other, other ≠ holder ∧ item ∈ table.held other

variable {table : Holdings Holder Item}

variable (hcoherent : table.Coherent)
include hcoherent

theorem Coherent.mem_index_iff (item : Item) :
    item ∈ table.index ↔ ∃ holder, item ∈ table.held holder := by
  rw [hcoherent.index_eq, Set.mem_iUnion]

variable [DecidableEq Holder]

/-- Give items to a holder, indexing those it did not have. -/
def claim (table : Holdings Holder Item) (holder : Holder) (items : Set Item) :
    Holdings Holder Item where
  held := Function.update table.held holder (table.held holder ∪ items)
  index := table.index ∪ (items \ table.held holder)

/-- Take items from a holder and from the index. -/
def release (table : Holdings Holder Item) (holder : Holder) (items : Set Item) :
    Holdings Holder Item where
  held := Function.update table.held holder (table.held holder \ items)
  index := table.index \ items

/-- Take everything from a holder, and what it had from the index. -/
def drop (table : Holdings Holder Item) (holder : Holder) : Holdings Holder Item :=
  table.release holder (table.held holder)

/-- Take items from every holder and from the index. -/
def purge (table : Holdings Holder Item) (items : Set Item) : Holdings Holder Item where
  held := fun holder => table.held holder \ items
  index := table.index \ items

/-- A claim keeps the table coherent exactly when nobody else has a claimed item. -/
theorem coherent_claim_iff (holder : Holder) (items : Set Item) :
    (table.claim holder items).Coherent ↔ ∀ item ∈ items, ¬ table.HeldElsewhere holder item := by
  constructor
  · rintro hclaim item hitem ⟨other, hother, hheld⟩
    refine hother (hclaim.unique other holder item ?_ ?_)
    · simpa [claim, hother] using hheld
    · simp [claim, hitem]
  · intro hfree
    refine ⟨?_, ?_⟩
    · intro a b item ha hb
      simp only [claim, Function.update_apply] at ha hb
      split at ha <;> split at hb
      · rename_i hholderA hholderB
        exact hholderA.trans hholderB.symm
      · rename_i hholder hother
        rcases ha with ha | ha
        · exact hholder.trans (hcoherent.unique holder b item ha hb)
        · exact absurd ⟨b, hother, hb⟩ (hfree item ha)
      · rename_i hother hholder
        rcases hb with hb | hb
        · exact (hcoherent.unique a holder item ha hb).trans hholder.symm
        · exact absurd ⟨a, hother, ha⟩ (hfree item hb)
      · exact hcoherent.unique a b item ha hb
    · ext item
      simp only [claim, Set.mem_union, Set.mem_iUnion, Function.update_apply,
        hcoherent.mem_index_iff]
      constructor
      · rintro (⟨a, ha⟩ | ⟨hitem, -⟩)
        · refine ⟨a, ?_⟩
          split
          · rename_i heq
            exact .inl (heq ▸ ha)
          · exact ha
        · exact ⟨holder, by simp [hitem]⟩
      · rintro ⟨a, ha⟩
        split at ha
        · rcases ha with ha | ha
          · exact .inl ⟨holder, ha⟩
          · by_cases hheld : item ∈ table.held holder
            · exact .inl ⟨holder, hheld⟩
            · exact .inr ⟨ha, hheld⟩
        · exact .inl ⟨a, ha⟩

/-- A release keeps the table coherent exactly when nobody else has a released item. -/
theorem coherent_release_iff (holder : Holder) (items : Set Item) :
    (table.release holder items).Coherent ↔ ∀ item ∈ items, ¬ table.HeldElsewhere holder item := by
  constructor
  · rintro hrelease item hitem ⟨other, hother, hheld⟩
    -- the other holder still has the item, but the index has lost it
    have hindexed : item ∈ (table.release holder items).index := by
      rw [hrelease.mem_index_iff]
      exact ⟨other, by simpa [release, hother] using hheld⟩
    exact hindexed.2 hitem
  · intro hfree
    have hsub : ∀ a item, item ∈ (table.release holder items).held a → item ∈ table.held a := by
      intro a item ha
      simp only [release, Function.update_apply] at ha
      split at ha
      · rename_i heq
        exact heq ▸ ha.1
      · exact ha
    refine ⟨fun a b item ha hb => hcoherent.unique a b item (hsub a item ha) (hsub b item hb), ?_⟩
    ext item
    simp only [release, Set.mem_sdiff, Set.mem_iUnion, Function.update_apply,
      hcoherent.mem_index_iff]
    constructor
    · rintro ⟨⟨a, ha⟩, hitem⟩
      refine ⟨a, ?_⟩
      split
      · rename_i heq
        exact ⟨heq ▸ ha, hitem⟩
      · exact ha
    · rintro ⟨a, ha⟩
      split at ha
      · exact ⟨⟨holder, ha.1⟩, ha.2⟩
      · rename_i hne
        exact ⟨⟨a, ha⟩, fun hitem => hfree item hitem ⟨a, hne, ha⟩⟩

theorem coherent_drop (holder : Holder) : (table.drop holder).Coherent := by
  refine (coherent_release_iff hcoherent holder _).mpr ?_
  rintro item hitem ⟨other, hother, hheld⟩
  exact hother (hcoherent.unique other holder item hheld hitem)

omit [DecidableEq Holder] in
theorem coherent_purge (items : Set Item) : (table.purge items).Coherent := by
  refine ⟨fun a b item ha hb => hcoherent.unique a b item ha.1 hb.1, ?_⟩
  ext item
  simp only [purge, Set.mem_sdiff, Set.mem_iUnion, hcoherent.mem_index_iff]
  exact ⟨fun ⟨⟨a, ha⟩, hitem⟩ => ⟨a, ha, hitem⟩, fun ⟨a, ha, hitem⟩ => ⟨⟨a, ha⟩, hitem⟩⟩

end Holdings

end Yggdrasil.Library
