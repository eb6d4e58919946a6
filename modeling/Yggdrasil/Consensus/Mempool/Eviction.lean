import Yggdrasil.Consensus.Mempool.QueueInvariant

/-!
# Insertion with eviction

`insert_with_eviction` changes the queue in place: it removes the entries it displaces and only
then calls `insert`, which makes its checks again.  Were one of them to fail now, the displaced
entries would be lost to a call that fails.  In a consistent queue the second round of checks
passes, and the entries displaced are the fewest that make room.
-/

namespace Yggdrasil.Consensus.Mempool

open Ledger Library

namespace Queue

variable {Payload : Type}

/-! ## What a successful call does -/

def bytesOf (entries : List (IndexedMempoolEntry Payload)) : Nat :=
  (entries.map fun indexed => indexed.entry.sizeBytes).sum

def feesOf (entries : List (IndexedMempoolEntry Payload)) : Nat :=
  (entries.map fun indexed => indexed.entry.fee.toNat).sum

section

variable (queue : Queue Payload) (entry : MempoolEntry Payload) (count : Nat)

/-- The last `count` entries, which have the lowest fees, and those before them. -/
def tail : List (IndexedMempoolEntry Payload) := queue.entries.drop (queue.entries.length - count)

def front : List (IndexedMempoolEntry Payload) := queue.entries.take (queue.entries.length - count)

/-- The entry fits once the last `count` entries are gone. -/
def FitsWithout : Prop :=
  queue.maxBytes = 0 ∨ bytesOf (queue.front count) + entry.sizeBytes ≤ queue.maxBytes

/-- The entry has taken the place of the last `count` entries. -/
structure Displaces (evicted : List TxId) (after : Queue Payload) : Prop where
  evicted : evicted = (queue.tail count).reverse.map fun indexed => indexed.entry.txId
  fits : queue.FitsWithout entry count
  shortest : ∀ fewer < count, ¬ queue.FitsWithout entry fewer
  lowest : ∀ gone ∈ queue.tail count, ∀ kept ∈ queue.front count, gone.entry.fee ≤ kept.entry.fee
  cheaper : ∀ gone ∈ queue.tail count, gone.entry.fee < entry.fee
  worthwhile : 0 < count ∨ 0 < entry.fee → feesOf (queue.tail count) < entry.fee.toNat
  others : after.entries.Perm (queue.nextEntry entry :: queue.front count)
  bytes : after.currentBytes = bytesOf after.entries
  capacity : 0 < queue.maxBytes → after.currentBytes ≤ queue.maxBytes

end

/-! ## The plan -/

/-- The walk from `plan` ended after the first `taken` entries: all of them are cheaper than the
newcomer, and leaving out the last of them would not free enough. -/
structure TakesFirst (fee : UInt64) (needed : Nat) (plan : EvictionPlan)
    (entries : List (IndexedMempoolEntry Payload)) (taken : Nat) (result : EvictionPlan) :
    Prop where
  count : result.count = plan.count + taken
  freed : result.freeableBytes = min (plan.freeableBytes + bytesOf (entries.take taken)) (2 ^ 64 - 1)
  fees : result.evictedFee.toNat =
    min (plan.evictedFee.toNat + feesOf (entries.take taken)) (2 ^ 64 - 1)
  cheaper : ∀ indexed ∈ entries.take taken, indexed.entry.fee < fee
  short : ∀ fewer < taken, plan.freeableBytes + bytesOf (entries.take fewer) < needed

variable {fee : UInt64} {needed : Nat}

theorem takesFirst_zero {plan : EvictionPlan} (hplan : plan.freeableBytes < 2 ^ 64)
    (entries : List (IndexedMempoolEntry Payload)) :
    TakesFirst fee needed plan entries 0 plan where
  count := rfl
  freed := by simp [bytesOf]; omega
  fees := by
    have hword := plan.evictedFee.toNat_lt
    simp [feesOf]; omega
  cheaper := by simp
  short := by simp

theorem TakesFirst.cons {plan next result : EvictionPlan} {indexed : IndexedMempoolEntry Payload}
    {rest : List (IndexedMempoolEntry Payload)} {taken : Nat} (hneeded : needed < 2 ^ 64)
    (hplan : plan.freeableBytes < needed) (hcheaper : indexed.entry.fee < fee)
    (hnext : next = ⟨plan.count + 1, min (plan.freeableBytes + indexed.entry.sizeBytes) (2 ^ 64 - 1),
      saturatingAdd plan.evictedFee indexed.entry.fee⟩)
    (hrest : TakesFirst fee needed next rest taken result) :
    TakesFirst fee needed plan (indexed :: rest) (taken + 1) result := by
  subst hnext
  have hfees := hrest.fees
  rw [toNat_saturatingAdd] at hfees
  have hfreed := hrest.freed
  dsimp only at hfreed
  refine ⟨by rw [hrest.count]; dsimp only; omega, ?_, ?_, ?_, ?_⟩
  · rw [hfreed, List.take_succ_cons, bytesOf, bytesOf, List.map_cons, List.sum_cons]
    omega
  · rw [hfees, List.take_succ_cons, feesOf, feesOf, List.map_cons, List.sum_cons]
    omega
  · rw [List.take_succ_cons, List.forall_mem_cons]
    exact ⟨hcheaper, hrest.cheaper⟩
  · intro fewer hfewer
    cases fewer with
    | zero => simpa [bytesOf] using hplan
    | succ fewer =>
      have hshort := hrest.short fewer (by omega)
      dsimp only at hshort
      rw [List.take_succ_cons, bytesOf, List.map_cons, List.sum_cons]
      rw [bytesOf] at hshort
      omega

theorem planEviction_spec (hneeded : needed < 2 ^ 64) (entries : List (IndexedMempoolEntry Payload))
    (plan : EvictionPlan) (hplan : plan.freeableBytes < needed) :
    ∃ taken, TakesFirst fee needed plan entries taken (planEviction fee needed plan entries) := by
  induction entries generalizing plan with
  | nil => exact ⟨0, takesFirst_zero (by omega) _⟩
  | cons indexed rest ih =>
    unfold planEviction
    split
    · exact ⟨0, takesFirst_zero (by omega) _⟩
    · rename_i hlower
      have hcheaper : indexed.entry.fee < fee := UInt64.not_le.mp hlower
      dsimp only
      split
      · exact ⟨1, .cons hneeded hplan hcheaper rfl (takesFirst_zero (by dsimp only; omega) rest)⟩
      · rename_i hmore
        obtain ⟨taken, htaken⟩ := ih ⟨_, _, _⟩ (Nat.lt_of_not_le hmore)
        exact ⟨taken + 1, htaken.cons hneeded hplan hcheaper rfl⟩

/-! ## The second insertion -/

section

variable {queue : Queue Payload} {entry : MempoolEntry Payload} {capacity : Nat}

theorem perm_bytesOf {entries others : List (IndexedMempoolEntry Payload)}
    (hperm : entries.Perm others) : bytesOf entries = bytesOf others :=
  (hperm.map _).sum_eq

theorem bytesOf_front_add_tail (queue : Queue Payload) (count : Nat) :
    bytesOf (queue.front count) + bytesOf (queue.tail count) = bytesOf queue.entries := by
  rw [bytesOf, bytesOf, ← List.sum_append, ← List.map_append, front, tail, List.take_append_drop]
  rfl

variable (hqueue : queue.Consistent capacity)
include hqueue

variable {count : Nat}

/-- The checks of `insert` pass after the eviction: ids and inputs only became free, and there is
room now. -/
theorem insert_evictTail (hfresh : queue.checkFresh entry = .ok ())
    (hword : queue.currentBytes + entry.sizeBytes < 2 ^ 64) {count : Nat}
    (hfits : queue.FitsWithout entry count) :
    (queue.evictTail count).2.insert entry = .ok
      ((queue.evictTail count).2.push entry (bytesOf (queue.front count) + entry.sizeBytes)) := by
  obtain ⟨hentries, -, hmax, -⟩ := evictTail_frame queue count
  have hleft := consistent_evictTail hqueue count
  have hbytes : (queue.evictTail count).2.currentBytes = bytesOf (queue.front count) := by
    rw [hleft.bytes, hentries]
    rfl
  have hless : bytesOf (queue.front count) ≤ queue.currentBytes := by
    rw [hqueue.bytes]
    exact (Nat.le_add_right _ _).trans_eq (bytesOf_front_add_tail queue count)
  obtain ⟨hnew, hfree⟩ := checkFresh_eq_ok hfresh
  have hold : ∀ {indexed}, indexed ∈ (queue.evictTail count).2.entries → indexed ∈ queue.entries :=
    fun hmem => List.mem_of_mem_take (hentries ▸ hmem)
  have hnewLeft : entry.txId ∉ (queue.evictTail count).2.txIds := fun hmem => by
    obtain ⟨indexed, hresident, hid⟩ := (hleft.members _).mp hmem
    exact hnew ((hqueue.members _).mpr ⟨indexed, hold hresident, hid⟩)
  have hfreeLeft : (queue.evictTail count).2.conflict entry = none := by
    refine List.findSome?_eq_none_iff.mpr fun input hinput => ?_
    rw [Option.eq_none_iff_forall_ne_some]
    intro txId hclaimed
    obtain ⟨indexed, hresident, hclaims⟩ := (hleft.claims _ _).mp hclaimed
    have hclaimedBefore := (hqueue.claims input txId).mpr ⟨indexed, hold hresident, hclaims⟩
    rw [hfree input hinput] at hclaimedBefore
    cases hclaimedBefore
  have hroom : ¬ (0 < queue.maxBytes ∧
      queue.maxBytes < bytesOf (queue.front count) + entry.sizeBytes) := by
    rcases hfits with hunlimited | hroom <;> omega
  simp only [insert, checkFresh, if_neg hnewLeft, hfreeLeft, nextBytes, hbytes, hmax,
    if_pos (show bytesOf (queue.front count) + entry.sizeBytes < 2 ^ 64 by omega), if_neg hroom,
    bind, Except.bind, pure, Except.pure]

/-- The new entry in the place of the last `count` ones. -/
theorem displaces_evictTail (hfits : queue.FitsWithout entry count)
    (hshortest : ∀ fewer < count, ¬ queue.FitsWithout entry fewer)
    (hcheaper : ∀ gone ∈ queue.tail count, gone.entry.fee < entry.fee)
    (hworthwhile : 0 < count ∨ 0 < entry.fee → feesOf (queue.tail count) < entry.fee.toNat) :
    queue.Displaces entry count (queue.evictTail count).1
      ((queue.evictTail count).2.push entry (bytesOf (queue.front count) + entry.sizeBytes)) := by
  obtain ⟨hentries, hnext, -⟩ := evictTail_frame queue count
  have hperm := perm_push (queue.evictTail count).2 entry
    (bytesOf (queue.front count) + entry.sizeBytes)
  rw [hentries, nextEntry, hnext] at hperm
  have hsorted := hqueue.fees
  rw [← List.take_append_drop (queue.entries.length - count) queue.entries,
    List.pairwise_append] at hsorted
  exact
    { evicted := rfl
      fits := hfits
      shortest := hshortest
      lowest := fun gone hgone kept hkept => hsorted.2.2 kept hkept gone hgone
      cheaper := hcheaper
      worthwhile := hworthwhile
      others := hperm
      bytes := (add_comm _ _).trans (perm_bytesOf hperm).symm
      capacity := fun hlimited => hfits.resolve_left (Nat.ne_of_gt hlimited) }

/-- What the plan says about the tail it names. -/
theorem plan_names_tail (hword : queue.currentBytes + entry.sizeBytes < 2 ^ 64)
    (hlimited : queue.maxBytes ≠ 0) {needed : Nat}
    (hneeded : queue.currentBytes + entry.sizeBytes = queue.maxBytes + needed)
    (hpositive : 0 < needed) {plan : EvictionPlan}
    (hplan : planEviction entry.fee needed ⟨0, 0, 0⟩ queue.entries.reverse = plan)
    (henough : needed ≤ plan.freeableBytes) (hfee : plan.evictedFee < entry.fee) :
    queue.FitsWithout entry plan.count ∧
      (∀ fewer < plan.count, ¬ queue.FitsWithout entry fewer) ∧
      (∀ gone ∈ queue.tail plan.count, gone.entry.fee < entry.fee) ∧
      feesOf (queue.tail plan.count) < entry.fee.toNat := by
  obtain ⟨taken, htaken⟩ := planEviction_spec (by omega) queue.entries.reverse ⟨0, 0, 0⟩ hpositive
  rw [hplan] at htaken
  obtain rfl : plan.count = taken := by simpa using htaken.count
  -- the walk goes backwards, so what it took is the tail in reverse
  have htail : ∀ count, queue.entries.reverse.take count = (queue.tail count).reverse :=
    fun count => List.take_reverse
  have hbytes : ∀ count, bytesOf (queue.tail count).reverse = bytesOf (queue.tail count) :=
    fun count => perm_bytesOf (List.reverse_perm _)
  have hfits : ∀ count, queue.FitsWithout entry count ↔ needed ≤ bytesOf (queue.tail count) := by
    intro count
    have hparts := bytesOf_front_add_tail queue count
    have hall : queue.currentBytes = bytesOf queue.entries := hqueue.bytes
    rw [FitsWithout, or_iff_right hlimited]
    omega
  have hfreed := htaken.freed
  have hfees := htaken.fees
  rw [htail, hbytes] at hfreed
  refine ⟨(hfits _).mpr (by simp at hfreed; omega), fun fewer hfewer => ?_, ?_, ?_⟩
  · have hshort := htaken.short fewer hfewer
    rw [htail, hbytes, Nat.zero_add] at hshort
    exact fun hfit => absurd ((hfits fewer).mp hfit) (by omega)
  · intro gone hgone
    refine htaken.cheaper gone ?_
    rw [htail]
    exact List.mem_reverse.mpr hgone
  · -- a saturated sum would be the largest word, and no fee is above that
    have hsame : feesOf (queue.tail plan.count).reverse = feesOf (queue.tail plan.count) :=
      ((List.reverse_perm _).map _).sum_eq
    rw [htail, hsame] at hfees
    have hless := UInt64.lt_iff_toNat_lt.mp hfee
    have htop := entry.fee.toNat_lt
    simp at hfees
    omega

theorem displaces_tailToEvict (hchecks : queue.tailToEvict entry = .ok count) :
    ∃ after, (queue.evictTail count).2.insert entry = .ok after ∧
      queue.Displaces entry count (queue.evictTail count).1 after := by
  unfold tailToEvict at hchecks
  simp only [bind_eq_ok] at hchecks
  obtain ⟨⟨⟩, hfresh, projected, hprojected, hchecks⟩ := hchecks
  obtain ⟨hword, rfl⟩ := nextBytes_eq_ok hprojected
  split_ifs at hchecks with hroom _ henough hfee <;> cases hchecks
  · -- nothing has to go
    have htail : queue.tail 0 = [] := by simp [tail]
    have hfits : queue.FitsWithout entry 0 := by
      have hall : queue.currentBytes = bytesOf queue.entries := hqueue.bytes
      rw [FitsWithout, front, Nat.sub_zero, List.take_length, ← hall]
      exact hroom
    exact ⟨_, insert_evictTail hqueue hfresh hword hfits,
      displaces_evictTail hqueue hfits (by simp) (by simp [htail])
        (by simp [htail, feesOf, UInt64.lt_iff_toNat_lt])⟩
  · obtain ⟨hfits, hshortest, hcheaper, hfees⟩ := plan_names_tail hqueue hword (by omega)
      (by omega) (by omega) rfl (Nat.le_of_not_lt henough) (UInt64.not_le.mp hfee)
    exact ⟨_, insert_evictTail hqueue hfresh hword hfits,
      displaces_evictTail hqueue hfits hshortest hcheaper fun _ => hfees⟩

omit hqueue

/-- **Eviction is all or nothing, and takes the fewest.**  A failing call leaves the queue as it
was.  A successful one displaces the shortest tail of the queue that makes the entry fit, for less
than the entry's fee; only an entry without a fee that displaces nothing does not pay more. -/
theorem insertWithEviction_all_or_nothing (hqueue : queue.Consistent capacity)
    (entry : MempoolEntry Payload) :
    (∀ reason after, queue.insertWithEvictionInPlace entry = (.error reason, after) →
      after = queue) ∧
    ∀ evicted after, queue.insertWithEvictionInPlace entry = (.ok evicted, after) →
      ∃ count, queue.Displaces entry count evicted after := by
  unfold insertWithEvictionInPlace
  cases hchecks : queue.tailToEvict entry with
  | error reason =>
    refine ⟨fun _ _ hcall => (congrArg Prod.snd hcall).symm, fun _ _ hcall => ?_⟩
    cases hcall
  | ok count =>
    obtain ⟨next, hinsert, hdisplaces⟩ := displaces_tailToEvict hqueue hchecks
    dsimp only
    rw [hinsert]
    refine ⟨fun _ _ hcall => ?_, fun _ _ hcall => ?_⟩ <;> cases hcall
    exact ⟨count, hdisplaces⟩

end

/-- A queue of one byte, which one entry fills. -/
def fullQueue : Queue Unit := (withCapacity 1 : Queue Unit).push tinyEntry 1

theorem insertWithEviction_all_or_nothing_fullQueue :
    (fullQueue.insertWithEvictionInPlace { tinyEntry with txId := 2, fee := 2 }).1 = .ok [1] ∧
      ∃ count, fullQueue.Displaces { tinyEntry with txId := 2, fee := 2 } count [1]
        (fullQueue.insertWithEvictionInPlace { tinyEntry with txId := 2, fee := 2 }).2 := by
  have hqueue : fullQueue.Consistent 1 :=
    (consistent_push_iff (consistent_withCapacity 1) (by decide) (by decide) (by decide)).mpr
      (by decide)
  exact ⟨rfl, (insertWithEviction_all_or_nothing hqueue _).2 _ _ rfl⟩

/-- An entry without a fee is admitted where there is room, although nothing is not less than its
fee. -/
theorem feeless_entry_admitted :
    ((withCapacity 1 : Queue Unit).insertWithEvictionInPlace { tinyEntry with fee := 0 }).1 = .ok [] ∧
      ¬ feesOf ((withCapacity 1 : Queue Unit).tail 0) <
        ({ tinyEntry with fee := 0 } : MempoolEntry Unit).fee.toNat :=
  ⟨rfl, by decide⟩

end Queue
end Yggdrasil.Consensus.Mempool
