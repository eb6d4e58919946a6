import Yggdrasil.Kes.SumKes

/-!
# Forward security of evolved keys

What the bytes of an evolved key are: the seed of the current leaf, and per level a field for the
seed of the right subtree and the verification keys of both subtrees.  The seed field is kept while
the right subtree lies ahead and is zero from the moment it is entered, so every seed that remains
belongs to periods that are not over.
-/

namespace Yggdrasil.Kes

variable (scheme : Scheme)

/-- `Subtree scheme depth seed first size sub subFirst`: in the tree of `depth` over `seed`, whose
periods start at `first`, there is a subtree of depth `size` over the seed `sub`, whose periods start
at `subFirst`. -/
inductive Subtree : (depth : Nat) → (seed : Octets 32) → (first : Nat) →
    (size : Nat) → (sub : Octets 32) → (subFirst : Nat) → Prop
  | whole (depth : Nat) (seed : Octets 32) (first : Nat) : Subtree depth seed first depth seed first
  | left {depth size : Nat} {seed sub : Octets 32} {first subFirst : Nat}
      (hsub : Subtree depth (expandSeed scheme seed).1 first size sub subFirst) :
      Subtree (depth + 1) seed first size sub subFirst
  | right {depth size : Nat} {seed sub : Octets 32} {first subFirst : Nat}
      (hsub : Subtree depth (expandSeed scheme seed).2 (first + 2 ^ depth) size sub subFirst) :
      Subtree (depth + 1) seed first size sub subFirst

variable {scheme}

variable {depth period : Nat} {seed : Octets 32}

theorem Subtree.first_le {size first subFirst : Nat} {sub : Octets 32}
    (hsub : Subtree scheme depth seed first size sub subFirst) : first ≤ subFirst := by
  induction hsub with
  | whole => exact le_rfl
  | left _ ih => exact ih
  | right _ ih => exact (Nat.le_add_right _ _).trans ih

/-- A field of a key. -/
inductive KeyField where
  | seed (size : Nat) (sub : Octets 32) (first : Nat)
  | zeroed
  | verificationKey (size : Nat) (sub : Octets 32)

variable (scheme)

def KeyField.bytes : KeyField → Octets 32
  | .seed _ sub _ => sub
  | .zeroed => Octets.zeroed 32
  | .verificationKey size sub => rootVk scheme size sub

/-- What may stand in the key of a period: verification keys and zeros, the leaf seed of the period,
and seeds of subtrees with later periods only. -/
def KeyField.Allowed (depth : Nat) (seed : Octets 32) (start period : Nat) : KeyField → Prop
  | .seed size sub first => Subtree scheme depth seed start size sub first ∧
      (size = 0 ∧ first = period ∨ period < first)
  | .zeroed => True
  | .verificationKey size sub => ∃ first, Subtree scheme depth seed start size sub first

/-- The fields of the key of a period, in order. -/
def keyFields : (depth : Nat) → (seed : Octets 32) → (start period : Nat) → List KeyField
  | 0, seed, start, _ => [.seed 0 seed start]
  | depth + 1, seed, start, period =>
    let (leftSeed, rightSeed) := expandSeed scheme seed
    let keys := [.verificationKey depth leftSeed, .verificationKey depth rightSeed]
    if period < 2 ^ depth then
      keyFields depth leftSeed start period ++ .seed depth rightSeed (start + 2 ^ depth) :: keys
    else
      keyFields depth rightSeed (start + 2 ^ depth) (period - 2 ^ depth) ++ .zeroed :: keys

theorem keyAt_eq_fields (depth : Nat) (seed : Octets 32) (start period : Nat) :
    (keyAt scheme depth seed period).1 =
      ((keyFields scheme depth seed start period).map fun field => (field.bytes scheme).1).flatten := by
  induction depth generalizing seed start period with
  | zero => simp [keyFields, keyAt, KeyField.bytes]
  | succ depth ih =>
    by_cases hleft : period < 2 ^ depth
    · rw [keyAt_left scheme hleft, keyFields]
      simp [hleft, assembleKey, KeyField.bytes, ih _ start]
    · rw [keyAt_right scheme hleft, keyFields]
      simp [hleft, assembleKey, KeyField.bytes, ih _ (start + 2 ^ depth)]

variable {scheme}

theorem KeyField.Allowed.left {start : Nat} {field : KeyField}
    (hallowed : field.Allowed scheme depth (expandSeed scheme seed).1 start period) :
    field.Allowed scheme (depth + 1) seed start period := by
  cases field with
  | seed size sub first => exact ⟨hallowed.1.left, hallowed.2⟩
  | zeroed => trivial
  | verificationKey size sub =>
    obtain ⟨first, hsub⟩ := hallowed
    exact ⟨first, hsub.left⟩

theorem KeyField.Allowed.right {start : Nat} {field : KeyField}
    (hallowed : field.Allowed scheme depth (expandSeed scheme seed).2 (start + 2 ^ depth) period) :
    field.Allowed scheme (depth + 1) seed start period := by
  cases field with
  | seed size sub first => exact ⟨hallowed.1.right, hallowed.2⟩
  | zeroed => trivial
  | verificationKey size sub =>
    obtain ⟨first, hsub⟩ := hallowed
    exact ⟨first, hsub.right⟩

theorem keyFields_allowed (depth : Nat) (seed : Octets 32) (start : Nat)
    (hperiod : period < 2 ^ depth) :
    ∀ field ∈ keyFields scheme depth seed start period,
      field.Allowed scheme depth seed start (start + period) := by
  induction depth generalizing seed start period with
  | zero =>
    intro field hfield
    obtain rfl := List.mem_singleton.mp hfield
    exact ⟨.whole _ _ _, .inl ⟨rfl, by omega⟩⟩
  | succ depth ih =>
    have hkeys : ∀ field ∈ [KeyField.verificationKey depth (expandSeed scheme seed).1,
        KeyField.verificationKey depth (expandSeed scheme seed).2],
        field.Allowed scheme (depth + 1) seed start (start + period) := by
      intro field hfield
      rcases List.mem_pair.mp hfield with rfl | rfl
      · exact ⟨_, .left (.whole _ _ _)⟩
      · exact ⟨_, .right (.whole _ _ _)⟩
    intro field hfield
    rw [keyFields] at hfield
    by_cases hleft : period < 2 ^ depth
    · simp only [if_pos hleft] at hfield
      rcases List.mem_append.mp hfield with hchild | hlevel
      · exact (ih _ start hleft field hchild).left
      rcases List.mem_cons.mp hlevel with rfl | hkey
      · exact ⟨.right (.whole _ _ _), .inr (by omega)⟩
      · exact hkeys field hkey
    · simp only [if_neg hleft] at hfield
      rcases List.mem_append.mp hfield with hchild | hlevel
      · have hinside := ih _ (start + 2 ^ depth) (show period - 2 ^ depth < 2 ^ depth by
          rw [pow_succ] at hperiod
          omega) field hchild
        rw [show start + 2 ^ depth + (period - 2 ^ depth) = start + period by omega] at hinside
        exact hinside.right
      rcases List.mem_cons.mp hlevel with rfl | hkey
      · trivial
      · exact hkeys field hkey

/-- **Evolved keys are forward secure.**  The key after some updates is made of fields each of which
is a verification key, zero, the leaf seed of the current period or the seed of a subtree all of
whose periods are later; and no leaf of an earlier period lies under a seed that it contains. -/
theorem kes_forward_secure (scheme : Scheme) (depth : Nat) (seed : Octets 32)
    (period : Fin (2 ^ depth)) :
    ∃ (key : SumKesSigningKey depth) (fields : List KeyField),
      evolve scheme depth (genSumKesSigningKey scheme depth seed) period = some key ∧
      key.1 = (fields.map fun field => (field.bytes scheme).1).flatten ∧
      (∀ field ∈ fields, field.Allowed scheme depth seed 0 period) ∧
      ∀ size sub first, KeyField.seed size sub first ∈ fields →
        ∀ leaf leafPeriod, Subtree scheme size sub first 0 leaf leafPeriod →
          period.val ≤ leafPeriod := by
  have hallowed : ∀ field ∈ keyFields scheme depth seed 0 period,
      field.Allowed scheme depth seed 0 (0 + period) :=
    keyFields_allowed depth seed 0 period.isLt
  rw [zero_add] at hallowed
  refine ⟨keyAt scheme depth seed period, keyFields scheme depth seed 0 period,
    evolve_gen scheme depth seed period.isLt, keyAt_eq_fields scheme depth seed 0 period, hallowed,
    ?_⟩
  intro size sub first hmem leaf leafPeriod hleaf
  have hstart := hleaf.first_le
  rcases (hallowed _ hmem).2 with ⟨-, hcurrent⟩ | hlater
  · omega
  · omega

/-! ## The values in a key -/

/-- The subtrees of a tree, each with its depth, its seed and its first period. -/
def subtrees (scheme : Scheme) : (depth : Nat) → (seed : Octets 32) → (first : Nat) →
    List (Nat × Octets 32 × Nat)
  | 0, seed, first => [(0, seed, first)]
  | depth + 1, seed, first =>
    (depth + 1, seed, first) :: (subtrees scheme depth (expandSeed scheme seed).1 first ++
      subtrees scheme depth (expandSeed scheme seed).2 (first + 2 ^ depth))

theorem Subtree.mem_subtrees {size first subFirst : Nat} {sub : Octets 32}
    (hsub : Subtree scheme depth seed first size sub subFirst) :
    (size, sub, subFirst) ∈ subtrees scheme depth seed first := by
  induction hsub with
  | whole depth seed first => cases depth <;> exact List.mem_cons_self
  | left _ ih => exact List.mem_cons_of_mem _ (List.mem_append_left _ ih)
  | right _ ih => exact List.mem_cons_of_mem _ (List.mem_append_right _ ih)

/-- The seeds of the subtrees are pairwise different, not zero, and no verification keys. -/
structure SeedsApart (scheme : Scheme) (depth : Nat) (seed : Octets 32) : Prop where
  distinct : ((subtrees scheme depth seed 0).map (·.2.1)).Nodup
  nonzero : ∀ tree ∈ subtrees scheme depth seed 0, tree.2.1 ≠ Octets.zeroed 32
  keys : ∀ tree ∈ subtrees scheme depth seed 0, ∀ other ∈ subtrees scheme depth seed 0,
    tree.2.1 ≠ rootVk scheme other.1 other.2.1

/-- No field of the key of a period has the value of a seed from which the key of an earlier period
can be derived. -/
theorem bytes_ne_earlier_seed (hapart : SeedsApart scheme depth seed) (hperiod : period < 2 ^ depth)
    {size first : Nat} {sub : Octets 32} (hsub : Subtree scheme depth seed 0 size sub first)
    (hearlier : first < period) :
    ∀ field ∈ keyFields scheme depth seed 0 period, field.bytes scheme ≠ sub := by
  intro field hfield hsame
  have hallowed := keyFields_allowed depth seed 0 hperiod field hfield
  rw [zero_add] at hallowed
  cases field with
  | seed otherSize other otherFirst =>
    obtain ⟨hother, hlate⟩ := hallowed
    obtain rfl : other = sub := hsame
    have htree := List.inj_on_of_nodup_map hapart.distinct hother.mem_subtrees hsub.mem_subtrees rfl
    obtain ⟨rfl, -, rfl⟩ := Prod.mk.injEq .. ▸ htree
    omega
  | zeroed => exact hapart.nonzero _ hsub.mem_subtrees hsame.symm
  | verificationKey otherSize other =>
    obtain ⟨otherFirst, hother⟩ := hallowed
    exact hapart.keys _ hsub.mem_subtrees _ hother.mem_subtrees hsame.symm

theorem openSeed_apart : SeedsApart openScheme 2 openSeed := ⟨by decide, by decide, by decide⟩

/-- In the third of four periods the seed of the first half is gone. -/
theorem openScheme_forward_secure :
    (∃ (key : SumKesSigningKey 2) (fields : List KeyField),
      evolve openScheme 2 (genSumKesSigningKey openScheme 2 openSeed) 2 = some key ∧
      key.1 = (fields.map fun field => (field.bytes openScheme).1).flatten ∧
      ∀ field ∈ fields, field.Allowed openScheme 2 openSeed 0 2) ∧
    ∀ field ∈ keyFields openScheme 2 openSeed 0 2,
      field.bytes openScheme ≠ (expandSeed openScheme openSeed).1 := by
  obtain ⟨key, fields, hevolve, hbytes, hallowed, -⟩ := kes_forward_secure openScheme 2 openSeed 2
  exact ⟨⟨key, fields, hevolve, hbytes, hallowed⟩,
    bytes_ne_earlier_seed openSeed_apart (by decide) (.left (.whole 1 _ 0)) (by decide)⟩

end Yggdrasil.Kes
