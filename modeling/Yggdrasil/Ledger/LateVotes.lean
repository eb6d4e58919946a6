import Yggdrasil.Ledger.CallFrame

/-!
# Late votes for parameters

From the slot of no return on, a vote of a genesis key names the epoch after the next boundary
(`validate_ppup_proposal`).  The boundary applies the votes of every epoch up to and including the
new one (`apply_due_pending_pparam_updates`), and the new one is the epoch that late votes name: a
late vote that has a quorum acts at the very next boundary.

`nextParams_eq_of_lateVotes` compares two runs of one state with the same early updates.  The
boundary gives both the same parameters if the late votes of both give a quorum to the same update,
or to none.
-/

namespace Yggdrasil.Ledger

open Library KeyedMap

/-! ## Quorums -/

/-- More than half of the genesis keys vote for the update. -/
def HasQuorum (genDelegs : KeyedMap Hash28 GenesisDelegationState)
    (votes : KeyedMap Hash28 ProtocolParameterUpdate) (update : ProtocolParameterUpdate) : Prop :=
  genDelegs.entries.length / 2 + 1 ≤ (votes.entries.filter fun vote =>
    (genDelegs.lookup vote.1).isSome ∧ vote.2 = update).length

/-- The counts are those of the votes counted so far. -/
structure Counted (votes : List ProtocolParameterUpdate)
    (counts : List (ProtocolParameterUpdate × Nat)) : Prop where
  counted : ∀ entry ∈ counts, entry.2 = votes.countP (· = entry.1)
  listed : ∀ update ∈ votes, ∃ entry ∈ counts, entry.1 = update

theorem Counted.countVote {votes : List ProtocolParameterUpdate}
    {counts : List (ProtocolParameterUpdate × Nat)} (hcounts : Counted votes counts)
    (proposal : ProtocolParameterUpdate) :
    Counted (votes ++ [proposal]) (countVote counts proposal) := by
  have hone : ∀ update, (votes ++ [proposal]).countP (· = update) =
      votes.countP (· = update) + if proposal = update then 1 else 0 := by
    intro update
    rw [List.countP_append, List.countP_singleton]
    simp only [decide_eq_true_eq]
  unfold Ledger.countVote
  by_cases hknown : counts.any (·.1 = proposal) = true
  · rw [if_pos hknown]
    constructor
    · intro entry hentry
      obtain ⟨before, hbefore, rfl⟩ := List.mem_map.mp hentry
      have hcount := hcounts.counted before hbefore
      by_cases hsame : before.1 = proposal
      · rw [if_pos hsame, hone, if_pos hsame.symm, hcount]
      · rw [if_neg hsame, hone, if_neg (Ne.symm hsame), hcount, add_zero]
    · intro update hupdate
      have hlisted : ∃ entry ∈ counts, entry.1 = update := by
        rcases List.mem_append.mp hupdate with hvoted | hnew
        · exact hcounts.listed update hvoted
        · rw [List.mem_singleton.mp hnew]
          simpa only [List.any_eq_true, decide_eq_true_eq] using hknown
      obtain ⟨entry, hentry, rfl⟩ := hlisted
      refine ⟨_, List.mem_map_of_mem hentry, ?_⟩
      split <;> rfl
  · rw [if_neg hknown]
    have hfresh : ∀ entry ∈ counts, entry.1 ≠ proposal := by
      intro entry hentry hsame
      exact hknown (List.any_eq_true.mpr ⟨entry, hentry, decide_eq_true hsame⟩)
    constructor
    · intro entry hentry
      rcases List.mem_append.mp hentry with hbefore | hnew
      · rw [hone, if_neg (hfresh entry hbefore).symm, hcounts.counted entry hbefore, add_zero]
      · rw [List.mem_singleton.mp hnew, hone, if_pos rfl, List.countP_eq_zero.mpr]
        intro vote hvote hsame
        obtain ⟨entry, hentry, rfl⟩ := hcounts.listed vote hvote
        exact hfresh entry hentry (of_decide_eq_true hsame)
    · intro update hupdate
      rcases List.mem_append.mp hupdate with hvoted | hnew
      · obtain ⟨entry, hentry, hupdate⟩ := hcounts.listed update hvoted
        exact ⟨entry, List.mem_append_left _ hentry, hupdate⟩
      · exact ⟨_, List.mem_append_right _ List.mem_cons_self, (List.mem_singleton.mp hnew).symm⟩

theorem counted_foldl (votes : List ProtocolParameterUpdate) :
    Counted votes (votes.foldl countVote []) := by
  induction votes using List.reverseRecOn with
  | nil => exact ⟨fun _ hnone => absurd hnone List.not_mem_nil,
      fun _ hnone => absurd hnone List.not_mem_nil⟩
  | append_singleton votes proposal ih =>
    rw [List.foldl_append]
    exact ih.countVote proposal

/-- The chosen entry has the most votes, and there is one if anybody voted. -/
theorem mostVotes_spec (counts : List (ProtocolParameterUpdate × Nat)) :
    match mostVotes counts with
    | none => counts = []
    | some best => best ∈ counts ∧ ∀ entry ∈ counts, entry.2 ≤ best.2 := by
  induction counts using List.reverseRecOn with
  | nil => rfl
  | append_singleton counts last ih =>
    unfold mostVotes at ih ⊢
    rw [List.foldl_append, List.foldl_cons, List.foldl_nil]
    split at ih
    · next => simp [ih]
    · next best hbest =>
      obtain ⟨hmem, hmost⟩ := ih
      simp only [hbest, Option.any_some, decide_eq_true_eq]
      by_cases hless : last.2 < best.2
      · rw [if_pos hless]
        refine ⟨List.mem_append_left _ hmem, ?_⟩
        simp only [List.forall_mem_append, List.forall_mem_singleton]
        exact ⟨hmost, hless.le⟩
      · rw [if_neg hless]
        refine ⟨List.mem_append_right _ List.mem_cons_self, ?_⟩
        simp only [List.forall_mem_append, List.forall_mem_singleton]
        exact ⟨fun entry hentry => (hmost entry hentry).trans (not_lt.mp hless), le_rfl⟩

section

variable (genDelegs : KeyedMap Hash28 GenesisDelegationState)
  (votes : KeyedMap Hash28 ProtocolParameterUpdate)

def validVotes : List ProtocolParameterUpdate :=
  (votes.entries.filter fun vote => (genDelegs.lookup vote.1).isSome).map (·.2)

theorem countP_validVotes (update : ProtocolParameterUpdate) :
    (validVotes genDelegs votes).countP (· = update) = (votes.entries.filter fun vote =>
      (genDelegs.lookup vote.1).isSome ∧ vote.2 = update).length := by
  rw [validVotes, List.countP_map, List.countP_filter, List.countP_eq_length_filter]
  congr 1
  refine List.filter_congr fun vote _ => ?_
  simp only [Function.comp, Bool.decide_and, Bool.and_comm, Bool.decide_eq_true]

theorem length_validVotes_le : (validVotes genDelegs votes).length ≤ genDelegs.entries.length := by
  have hsub : ((votes.entries.filter fun vote =>
      (genDelegs.lookup vote.1).isSome).map (·.1)).Subperm genDelegs.keys := by
    refine List.Nodup.subperm ?_ ?_
    · exact votes.keys_nodup.sublist (List.filter_sublist.map _)
    · intro key hkey
      obtain ⟨vote, hvote, rfl⟩ := List.mem_map.mp hkey
      exact AList.lookup_isSome.mp (List.mem_filter.mp hvote).2
  have hlength := hsub.length_le
  rw [List.length_map] at hlength
  rw [validVotes, List.length_map]
  exact hlength.trans_eq (List.length_map _)

theorem not_hasQuorum_of_few (hfew : votes.entries.length ≤ genDelegs.entries.length / 2)
    (update : ProtocolParameterUpdate) : ¬ HasQuorum genDelegs votes update := by
  have hvotes := List.length_filter_le (fun vote : Sigma fun _ => ProtocolParameterUpdate =>
    (genDelegs.lookup vote.1).isSome ∧ vote.2 = update) votes.entries
  unfold HasQuorum
  omega

/-- The update that wins is the one with a quorum; two cannot have one. -/
theorem winningPparamUpdate_eq_some (update : ProtocolParameterUpdate) :
    winningPparamUpdate genDelegs votes = some update ↔ HasQuorum genDelegs votes update := by
  have hcounted := counted_foldl (validVotes genDelegs votes)
  have hspec := mostVotes_spec ((validVotes genDelegs votes).foldl countVote [])
  have hlength := length_validVotes_le genDelegs votes
  have hwins : winningPparamUpdate genDelegs votes = some update ↔ ∃ best,
      mostVotes ((validVotes genDelegs votes).foldl countVote []) = some best ∧
        genDelegs.entries.length / 2 + 1 ≤ best.2 ∧ best.1 = update := by
    unfold winningPparamUpdate
    rw [← validVotes, Option.map_eq_some_iff]
    simp only [Option.filter_eq_some_iff, decide_eq_true_eq, and_assoc]
  rw [hwins, HasQuorum, ← countP_validVotes]
  constructor
  · rintro ⟨best, hbest, hquorum, rfl⟩
    rw [hbest] at hspec
    rwa [← hcounted.counted best hspec.1]
  · intro hquorum
    obtain ⟨vote, hvote, hsame⟩ := List.countP_pos_iff.mp (Nat.lt_of_lt_of_le (by omega) hquorum)
    obtain rfl := of_decide_eq_true hsame
    obtain ⟨entry, hentry, rfl⟩ := hcounted.listed vote hvote
    cases hbest : mostVotes ((validVotes genDelegs votes).foldl countVote []) with
    | none =>
      rw [hbest] at hspec
      exact absurd (hspec ▸ hentry) List.not_mem_nil
    | some best =>
      rw [hbest] at hspec
      have hmore := hspec.2 entry hentry
      have hbestVotes := hcounted.counted best hspec.1
      rw [hcounted.counted entry hentry] at hmore
      refine ⟨best, rfl, hquorum.trans hmore, ?_⟩
      -- two updates with a quorum would need more votes than there are keys
      by_contra hother
      have htotal := List.length_eq_countP_add_countP (· = best.1)
        (l := validVotes genDelegs votes)
      have hrest : (validVotes genDelegs votes).countP (· = entry.1) ≤
          (validVotes genDelegs votes).countP (¬ · = best.1) :=
        List.countP_mono_left fun vote _ hvote => by
          rw [of_decide_eq_true hvote]
          exact decide_eq_true (Ne.symm hother)
      simp only [decide_eq_true_eq] at htotal
      omega

end

/-! ## Due updates -/

/-- Take over an update, if there is one. -/
def adoptUpdate (update : Option ProtocolParameterUpdate) (params : Option ProtocolParameters) :
    Option ProtocolParameters :=
  match update with
  | some update => some ((params.getD {}).applyUpdate update)
  | none => params

/-- The update that wins for an epoch. -/
def winnerAt (genDelegs : KeyedMap Hash28 GenesisDelegationState) (pending : PendingPparamUpdates)
    (epoch : EpochNo) : Option ProtocolParameterUpdate :=
  (pending.lookup epoch).bind (winningPparamUpdate genDelegs)

/-- The epochs of the updates that are due, in their order. -/
def dueEpochs (epoch : EpochNo) (pending : PendingPparamUpdates) : List EpochNo :=
  (pending.keys.filter (· ≤ epoch)).insertionSort (· ≤ ·)

section

variable {genDelegs : KeyedMap Hash28 GenesisDelegationState} {epoch : EpochNo}
  {pending other : PendingPparamUpdates}

variable (params : Option ProtocolParameters)

theorem applyPendingPparamUpdates_params :
    (applyPendingPparamUpdates genDelegs epoch params pending).1 =
      adoptUpdate (winnerAt genDelegs pending epoch) params := by
  unfold applyPendingPparamUpdates winnerAt adoptUpdate
  cases (pending.lookup epoch).bind (winningPparamUpdate genDelegs) <;> rfl

theorem applyPendingPparamUpdates_pending :
    (applyPendingPparamUpdates genDelegs epoch params pending).2.1 =
      keep (fun later _ => epoch < later) pending := by
  unfold applyPendingPparamUpdates
  cases (pending.lookup epoch).bind (winningPparamUpdate genDelegs) <;> rfl

theorem pairwise_dueEpochs : (dueEpochs epoch pending).Pairwise (· < ·) := by
  have hsorted : (dueEpochs epoch pending).Pairwise (· ≤ ·) := List.pairwise_insertionSort _ _
  have hnodup : (dueEpochs epoch pending).Nodup :=
    (List.perm_insertionSort _ _).nodup_iff.mpr (pending.keys_nodup.filter _)
  exact (hsorted.and hnodup).imp fun hboth => UInt64.lt_of_le_of_ne hboth.1 hboth.2

/-- An epoch that is dealt with takes only earlier ones away. -/
theorem foldl_due (dues : List EpochNo) (hsorted : dues.Pairwise (· < ·))
    (params : Option ProtocolParameters) (count : Nat)
    (hsame : ∀ due ∈ dues, other.lookup due = pending.lookup due) :
    (dues.foldl (fun result due =>
        let step := applyPendingPparamUpdates genDelegs due result.1 result.2.1
        (step.1, step.2.1, result.2.2 + step.2.2)) (params, other, count)).1 =
      dues.foldl (fun params due => adoptUpdate (winnerAt genDelegs pending due) params) params := by
  induction dues generalizing params other count with
  | nil => rfl
  | cons due later ih =>
    obtain ⟨hfirst, hrest⟩ := List.pairwise_cons.mp hsorted
    have hwinner : winnerAt genDelegs other due = winnerAt genDelegs pending due := by
      rw [winnerAt, winnerAt, hsame due List.mem_cons_self]
    rw [List.foldl_cons, List.foldl_cons, ih hrest, applyPendingPparamUpdates_params, hwinner]
    intro next hnext
    rw [applyPendingPparamUpdates_pending, lookup_keep,
      hsame next (List.mem_cons_of_mem _ hnext)]
    cases pending.lookup next with
    | none => rfl
    | some votes => simp [hfirst next hnext]

theorem applyDue_params :
    (applyDuePendingPparamUpdates genDelegs epoch params pending).1 =
      (dueEpochs epoch pending).foldl
        (fun params due => adoptUpdate (winnerAt genDelegs pending due) params) params :=
  foldl_due _ pairwise_dueEpochs params 0 fun _ _ => rfl

theorem foldl_winners (winner : EpochNo → Option ProtocolParameterUpdate) (dues : List EpochNo) :
    dues.foldl (fun params due => adoptUpdate (winner due) params) params =
      (dues.filter fun due => (winner due).isSome).foldl
        (fun params due => adoptUpdate (winner due) params) params := by
  induction dues generalizing params with
  | nil => rfl
  | cons due later ih =>
    cases hwinner : winner due with
    | none =>
      rw [List.foldl_cons, hwinner, List.filter_cons_of_neg (by simp [hwinner])]
      exact ih params
    | some update => simp [hwinner, ih]

theorem mem_winning {due : EpochNo} :
    due ∈ (dueEpochs epoch pending).filter (fun due => (winnerAt genDelegs pending due).isSome) ↔
      due ≤ epoch ∧ (winnerAt genDelegs pending due).isSome := by
  rw [dueEpochs, List.mem_filter, (List.perm_insertionSort _ _).mem_iff, List.mem_filter,
    ← AList.mem_keys, ← AList.lookup_isSome, decide_eq_true_eq]
  refine ⟨fun hdue => ⟨hdue.1.2, hdue.2⟩, fun hdue => ⟨⟨?_, hdue.1⟩, hdue.2⟩⟩
  obtain ⟨update, hupdate⟩ := Option.isSome_iff_exists.mp hdue.2
  obtain ⟨votes, hvotes, -⟩ := Option.bind_eq_some_iff.mp hupdate
  exact Option.isSome_of_mem hvotes

theorem applyDue_congr (hsame : winnerAt genDelegs pending = winnerAt genDelegs other) :
    (applyDuePendingPparamUpdates genDelegs epoch params pending).1 =
      (applyDuePendingPparamUpdates genDelegs epoch params other).1 := by
  rw [applyDue_params, applyDue_params, foldl_winners params (winnerAt genDelegs pending),
    foldl_winners params (winnerAt genDelegs other)]
  -- both lists of epochs are sorted and have the same elements
  have hsorted : ∀ any : PendingPparamUpdates, ((dueEpochs epoch any).filter
      (fun due => (winnerAt genDelegs any due).isSome)).Pairwise (· < ·) :=
    fun _ => pairwise_dueEpochs.filter _
  have hperm := (List.perm_ext_iff_of_nodup ((hsorted pending).imp UInt64.ne_of_lt)
    ((hsorted other).imp UInt64.ne_of_lt)).mpr fun due => by rw [mem_winning, mem_winning, hsame]
  rw [hperm.eq_of_pairwise (fun _ _ _ _ hlt hgt => absurd hlt (UInt64.lt_asymm hgt))
    (hsorted pending) (hsorted other), hsame]

end

/-! ## Collected updates -/

/-- Record updates in their order. -/
def collectAll (updates : List ShelleyUpdate) (pending : PendingPparamUpdates) :
    PendingPparamUpdates :=
  updates.foldl (fun pending update => collectPparamProposals update pending) pending

section

variable {updates : List ShelleyUpdate} {pending other : PendingPparamUpdates} {epoch : EpochNo}

theorem collectAll_append (first second : List ShelleyUpdate) :
    collectAll (first ++ second) pending = collectAll second (collectAll first pending) :=
  List.foldl_append

/-- The votes for an epoch depend on the earlier votes for it only. -/
theorem lookup_collectAll_congr (updates : List ShelleyUpdate)
    (hsame : pending.lookup epoch = other.lookup epoch) :
    (collectAll updates pending).lookup epoch = (collectAll updates other).lookup epoch := by
  induction updates generalizing pending other with
  | nil => exact hsame
  | cons update later ih =>
    refine ih ?_
    dsimp only [collectPparamProposals]
    by_cases hepoch : update.epoch = epoch
    · rw [hepoch, AList.lookup_insert, AList.lookup_insert, hsame]
    · rw [AList.lookup_insert_ne (Ne.symm hepoch), AList.lookup_insert_ne (Ne.symm hepoch), hsame]

theorem lookup_collectAll_of_ne (hother : ∀ update ∈ updates, update.epoch ≠ epoch) :
    (collectAll updates pending).lookup epoch = pending.lookup epoch := by
  induction updates generalizing pending with
  | nil => rfl
  | cons update later ih =>
    obtain ⟨hfirst, hlater⟩ := List.forall_mem_cons.mp hother
    refine (ih hlater).trans ?_
    exact AList.lookup_insert_ne hfirst.symm

end

/-! ## Two runs within an epoch -/

section

variable {More Evaluator : Type} {env : LedgerCallEnv More Evaluator}

variable {calls : List (LedgerCall env)} (state : BoundaryState)

def runCalls (calls : List (LedgerCall env)) : Result BoundaryState :=
  calls.foldlM (fun state call => call.parts.result state) state

/-- The updates of a run, in their order. -/
def updatesOf (calls : List (LedgerCall env)) : List ShelleyUpdate := calls.flatMap (·.updates)

theorem updatesOf_cons (call : LedgerCall env) (later : List (LedgerCall env)) :
    updatesOf (call :: later) = call.updates ++ updatesOf later :=
  List.flatMap_cons

/-- The slot of no return: `first_slot(e + 1) - w`. -/
def noReturn (rest : BoundaryRest) (window : UInt64) : SlotNo :=
  saturatingSub (epochFirstSlot rest (rest.currentEpoch + 1)) window

/-- The part of a run before the slot of no return. -/
def earlyPart (rest : BoundaryRest) (window : UInt64) (calls : List (LedgerCall env)) :
    List (LedgerCall env) :=
  calls.filter fun call => call.slot < noReturn rest window

/-- The part of a run from the slot of no return on. -/
def latePart (rest : BoundaryRest) (window : UInt64) (calls : List (LedgerCall env)) :
    List (LedgerCall env) :=
  calls.filter fun call => noReturn rest window ≤ call.slot

/-- The votes for the next epoch: those that wait, and the late ones of a run. -/
def lateVotes (rest : BoundaryRest) (window : UInt64) (calls : List (LedgerCall env)) :
    KeyedMap Hash28 ProtocolParameterUpdate :=
  ((collectAll (updatesOf (latePart rest window calls)) rest.other.pendingPparamUpdates).lookup
    (rest.currentEpoch + 1)).getD ∅

theorem runCalls_eq_ok {state final : BoundaryState} (hrun : runCalls state calls = .ok final) :
    epochClock final.rest = epochClock state.rest ∧
      final.rest.other.pendingPparamUpdates =
        collectAll (updatesOf calls) state.rest.other.pendingPparamUpdates ∧
      ∀ call ∈ calls, ∀ update ∈ call.updates, checkTargetEpoch state.rest.currentEpoch update.epoch
        (ppupSlotContext state.rest call.slot) = .ok () := by
  induction calls generalizing state with
  | nil =>
    have hsame : state = final := Except.ok.inj hrun
    rw [hsame]
    exact ⟨rfl, rfl, fun _ hmem => absurd hmem List.not_mem_nil⟩
  | cons call later ih =>
    obtain ⟨next, hcall, hlater⟩ := bind_eq_ok.mp hrun
    obtain ⟨hclock, hpending, htargets⟩ := call.result_eq_ok hcall
    obtain ⟨hclock', hpending', htargets'⟩ := ih hlater
    have hepoch : next.rest.currentEpoch = state.rest.currentEpoch :=
      congrArg EpochClock.currentEpoch hclock
    refine ⟨hclock'.trans hclock, ?_, ?_⟩
    · rw [hpending', hpending, updatesOf_cons, collectAll_append]
      rfl
    · refine List.forall_mem_cons.mpr ⟨htargets, fun call hcall update hupdate => ?_⟩
      have htarget := htargets' call hcall update hupdate
      rwa [hepoch, ppupSlotContext_congr hclock] at htarget

variable {window : UInt64}

/-- Early votes name this epoch, late ones the next. -/
theorem target_of_checkTargetEpoch {rest : BoundaryRest} {slot : SlotNo} {target : EpochNo}
    (hwindow : rest.stabilityWindow = some window) (hslots : rest.slotsPerEpoch ≠ 0)
    (hcheck : checkTargetEpoch rest.currentEpoch target (ppupSlotContext rest slot) = .ok ()) :
    target = if slot < noReturn rest window then rest.currentEpoch else rest.currentEpoch + 1 := by
  unfold ppupSlotContext at hcheck
  rw [hwindow, Option.bind_some, if_neg hslots] at hcheck
  unfold checkTargetEpoch PpupSlotContext.tooLate at hcheck
  dsimp only at hcheck
  unfold noReturn
  split at hcheck
  all_goals
    next hslot =>
      rw [rejectIf_eq_ok, not_not] at hcheck
      simp only [hslot]
      exact hcheck

theorem lookup_updatesOf {epoch : EpochNo} (kept : LedgerCall env → Bool)
    (hother : ∀ call ∈ calls, kept call = false → ∀ update ∈ call.updates, update.epoch ≠ epoch)
    (pending : PendingPparamUpdates) :
    (collectAll (updatesOf calls) pending).lookup epoch =
      (collectAll (updatesOf (calls.filter kept)) pending).lookup epoch := by
  induction calls generalizing pending with
  | nil => rfl
  | cons call later ih =>
    obtain ⟨hcall, hlater⟩ := List.forall_mem_cons.mp hother
    rw [updatesOf_cons, collectAll_append, ih hlater]
    cases hkept : kept call with
    | true => rw [List.filter_cons_of_pos hkept, updatesOf_cons, collectAll_append]
    | false =>
      rw [List.filter_cons_of_neg (by simp [hkept])]
      exact lookup_collectAll_congr _ (lookup_collectAll_of_ne (hcall hkept))

/-- The parameters after the boundary into the next epoch. -/
def nextParams : Option ProtocolParameters :=
  (updateParameters (state.rest.currentEpoch + 1) state).1.protocolParams

/-- What wins after a run: for the next epoch an update of the late votes, else one of the early
updates. -/
theorem winnerAt_runCalls {state final : BoundaryState}
    (hwindow : state.rest.stabilityWindow = some window) (hslots : state.rest.slotsPerEpoch ≠ 0)
    (hrun : runCalls state calls = .ok final) (due : EpochNo) :
    winnerAt final.rest.genDelegs final.rest.other.pendingPparamUpdates due =
      if due = state.rest.currentEpoch + 1 then
        winningPparamUpdate final.rest.genDelegs (lateVotes state.rest window calls)
      else winnerAt final.rest.genDelegs (collectAll
        (updatesOf (earlyPart state.rest window calls)) state.rest.other.pendingPparamUpdates)
        due := by
  obtain ⟨-, hpending, htargets⟩ := runCalls_eq_ok hrun
  have htarget := fun call hcall update hupdate =>
    target_of_checkTargetEpoch hwindow hslots (htargets call hcall update hupdate)
  rw [winnerAt, hpending]
  split
  · next hdue =>
    have hlate : (collectAll (updatesOf calls) state.rest.other.pendingPparamUpdates).lookup due =
        (collectAll (updatesOf (latePart state.rest window calls))
          state.rest.other.pendingPparamUpdates).lookup due := by
      refine lookup_updatesOf _ (fun call hcall hnot update hupdate => ?_) _
      rw [htarget call hcall update hupdate, if_pos (UInt64.not_le.mp (of_decide_eq_false hnot)),
        hdue]
      exact fun hsame => absurd (left_eq_add.mp hsame) (by decide)
    rw [hlate, hdue, lateVotes]
    cases (collectAll (updatesOf (latePart state.rest window calls))
      state.rest.other.pendingPparamUpdates).lookup (state.rest.currentEpoch + 1) <;> rfl
  · next hdue =>
    rw [winnerAt]
    refine congrArg (Option.bind · _) (lookup_updatesOf _ (fun call hcall hlate update hupdate => ?_) _)
    rw [htarget call hcall update hupdate, if_neg (of_decide_eq_false hlate)]
    exact Ne.symm hdue

section

variable (state final₁ final₂ : BoundaryState) (window : UInt64)
  (calls₁ calls₂ : List (LedgerCall env)) (hwindow : state.rest.stabilityWindow = some window)
  (hslots : state.rest.slotsPerEpoch ≠ 0)
  (hrun₁ : runCalls state calls₁ = .ok final₁) (hrun₂ : runCalls state calls₂ = .ok final₂)
  (hearly : updatesOf (earlyPart state.rest window calls₁) =
    updatesOf (earlyPart state.rest window calls₂))
  (hkeys : final₁.rest.genDelegs = final₂.rest.genDelegs)
  (hparams : final₁.protocolParams = final₂.protocolParams)

include hwindow hslots hrun₁ hrun₂ hearly hkeys hparams

theorem nextParams_eq_of_winners
    (hwinners : winningPparamUpdate final₁.rest.genDelegs (lateVotes state.rest window calls₁) =
      winningPparamUpdate final₂.rest.genDelegs (lateVotes state.rest window calls₂)) :
    nextParams final₁ = nextParams final₂ := by
  have hepoch : final₁.rest.currentEpoch = final₂.rest.currentEpoch :=
    congrArg EpochClock.currentEpoch ((runCalls_eq_ok hrun₁).1.trans (runCalls_eq_ok hrun₂).1.symm)
  have hsame : winnerAt final₁.rest.genDelegs final₁.rest.other.pendingPparamUpdates =
      winnerAt final₂.rest.genDelegs final₂.rest.other.pendingPparamUpdates := by
    funext due
    rw [winnerAt_runCalls hwindow hslots hrun₁, winnerAt_runCalls hwindow hslots hrun₂, hwinners,
      hearly, hkeys]
  unfold nextParams
  rw [hepoch]
  refine (applyDue_congr _ (hsame.trans (by rw [hkeys]))).trans ?_
  rw [hkeys, hparams]
  rfl

/-- So it is if in both runs no more than half of the genesis keys vote late. -/
theorem nextParams_eq_of_few_late_votes
    (hfew₁ : (lateVotes state.rest window calls₁).entries.length ≤
      final₁.rest.genDelegs.entries.length / 2)
    (hfew₂ : (lateVotes state.rest window calls₂).entries.length ≤
      final₂.rest.genDelegs.entries.length / 2) : nextParams final₁ = nextParams final₂ := by
  refine nextParams_eq_of_winners state final₁ final₂ window calls₁ calls₂ hwindow hslots hrun₁ hrun₂
    hearly hkeys hparams (Option.ext fun update => ?_)
  rw [winningPparamUpdate_eq_some, winningPparamUpdate_eq_some]
  exact iff_of_false (not_hasQuorum_of_few _ _ hfew₁ update) (not_hasQuorum_of_few _ _ hfew₂ update)

end

end

/-! ## One late vote -/

/-- The genesis key 1 votes at slot 95 for epoch 1. -/
def lateVoteTx : EarlyTx ShelleyTxBody (Option ShelleyUpdate) where
  id := 2
  size := 0
  body := ⟨[⟨1, 0⟩], [⟨[], 10000000⟩], 0, 100⟩
  certificates := none
  withdrawals := none
  witnessBytes := none
  auxiliaryData := none
  more := some ⟨single 1 { minFeeA := some 7 }, 1⟩

def lateVoteEnv : LedgerCallEnv (Option ShelleyUpdate) Unit := .permissive fun _ => .ok lateVoteTx

/-- Epoch 0 of 100 slots with a stability window of 10, and the given genesis keys. -/
def votingState (keys : List Hash28) : BoundaryState :=
  { BoundaryState.new .shelley with
    protocolParams := some {}
    multiEraUtxo := single ⟨1, 0⟩ (.shelley [] 10000000)
    rest := { (BoundaryState.new .shelley).rest with
      genDelegs := insertAll (keys.map fun key => (key, ⟨key, 0⟩)) ∅
      stabilityWindow := some 10
      slotsPerEpoch := 100
      other := { (BoundaryState.new .shelley).rest.other with
        shelleyUtxo := single ⟨1, 0⟩ ⟨[], 10000000⟩ } } }

def blockAt95 (txs : List Tx) : LedgerCall lateVoteEnv :=
  .earlyBlock ⟨.shelley, ⟨0, 0, 95, 95⟩, none, none, txs⟩

def voteBlock : LedgerCall lateVoteEnv := blockAt95 [⟨2, [], none, none, none⟩]

def silentBlock : LedgerCall lateVoteEnv := blockAt95 []

def afterBlock (keys : List Hash28) (block : LedgerCall lateVoteEnv) : BoundaryState :=
  (block.run (votingState keys)).1

end Yggdrasil.Ledger
