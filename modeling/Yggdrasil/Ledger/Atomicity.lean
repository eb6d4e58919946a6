import Yggdrasil.Ledger.SpentOutputs

/-!
# Calls that fail

A failed `apply_block_validated` or `apply_submitted_tx` is documented to leave the ledger state
unchanged.  `unchanged_iff` says when it does: the block is refused for its slot or its era, or
the call fails before its commit while no scheduled genesis delegation has come due and, at a block
that ends Byron, no Shelley genesis is pending.  When a parameter update is refused after the
commit, the outputs that the transactions spent are gone.
-/

namespace Yggdrasil.Ledger

open Library

/-! ## What a call changes first -/

/-- No scheduled genesis delegation has come due, and the delegates are read anew. -/
structure NothingDue (slot : SlotNo) (state : BoundaryState) : Prop where
  scheduled : ∀ entry ∈ state.rest.futureGenDelegs.entries, slot < entry.1.1
  delegates : state.refresh = state

/-- No Shelley genesis waits for its activation, and the set of Shelley has what Byron left. -/
structure NothingPending (state : BoundaryState) : Prop where
  utxo : state.rest.pendingShelleyGenesisUtxo = none
  stake : state.rest.pendingShelleyGenesisStake = none
  pools : state.rest.pendingShelleyGenesisPools = none
  delegs : state.rest.pendingShelleyGenesisDelegs = none
  translated : translateShelleyUtxo state = state

theorem applyScheduledGenesisDelegations_of_future {slot : SlotNo} {rest : BoundaryRest}
    (hfuture : ∀ entry ∈ rest.futureGenDelegs.entries, slot < entry.1.1) :
    applyScheduledGenesisDelegations slot rest = rest := by
  have hready : (rest.futureGenDelegs.entries.filter fun entry => entry.1.1 ≤ slot) = [] := by
    rw [List.filter_eq_nil_iff]
    intro entry hentry
    simpa using hfuture entry hentry
  have hkeep : KeyedMap.keep (fun key _ => slot < key.1) rest.futureGenDelegs =
      rest.futureGenDelegs := by
    apply AList.ext
    exact List.filter_eq_self.mpr fun entry hentry => decide_eq_true (hfuture entry hentry)
  unfold applyScheduledGenesisDelegations
  rw [hready, hkeep]
  rfl

variable (slot : SlotNo)

theorem adoptScheduledGenesisDelegations_eq_iff (state : BoundaryState) :
    adoptScheduledGenesisDelegations slot state = state ↔ NothingDue slot state := by
  constructor
  · intro hsame
    have hfuture : ∀ entry ∈ state.rest.futureGenDelegs.entries, slot < entry.1.1 := by
      have hentries := congrArg (fun s => s.rest.futureGenDelegs.entries) hsame
      intro entry hentry
      simpa using List.filter_eq_self.mp hentries entry hentry
    refine ⟨hfuture, ?_⟩
    have hrefresh := hsame
    unfold adoptScheduledGenesisDelegations at hrefresh
    rwa [applyScheduledGenesisDelegations_of_future hfuture] at hrefresh
  · rintro ⟨hfuture, hrefresh⟩
    unfold adoptScheduledGenesisDelegations
    rw [applyScheduledGenesisDelegations_of_future hfuture]
    exact hrefresh

variable {state : BoundaryState}

theorem activatePendingShelleyGenesis_of_nothingPending (hnothing : NothingPending state) :
    activatePendingShelleyGenesis state = state := by
  obtain ⟨tip, era, params, delegs, utxo, rest⟩ := state
  obtain ⟨hutxo, hstake, hpools, hdelegs, -⟩ := hnothing
  cases rest
  subst hutxo hstake hpools hdelegs
  unfold activatePendingShelleyGenesis
  split <;> rfl

theorem translateShelleyUtxo_of_other
    (hother : (translateShelleyUtxo state).rest.other = state.rest.other) :
    translateShelleyUtxo state = state := by
  unfold translateShelleyUtxo at hother ⊢
  by_cases hbyron : state.currentEra = .byron
  · rw [if_pos hbyron] at hother ⊢
    dsimp only at hother ⊢
    rw [hother]
  · rw [if_neg hbyron]

theorem translateShelleyUtxo_currentEra (state : BoundaryState) :
    (translateShelleyUtxo state).currentEra = state.currentEra := by
  unfold translateShelleyUtxo
  split <;> rfl

theorem activatePendingShelleyGenesis_other (state : BoundaryState) :
    (activatePendingShelleyGenesis state).rest.other = state.rest.other := by
  unfold activatePendingShelleyGenesis
  split <;> rfl

theorem enterLedger_of_later_era (hera : state.currentEra ≠ .byron) :
    enterLedger slot state = adoptScheduledGenesisDelegations slot state := by
  rw [enterLedger_eq]
  unfold translateShelleyUtxo activatePendingShelleyGenesis
  rw [if_neg hera, if_neg hera]

/-- An activation that changes nothing had nothing to activate. -/
theorem nothingPending_of_enterLedger {slot : SlotNo} (hera : state.currentEra = .byron)
    (hsame : enterLedger slot state = state) : NothingPending state := by
  have hbyron : (translateShelleyUtxo state).currentEra = .byron := by
    rw [translateShelleyUtxo_currentEra, hera]
  have hother : (translateShelleyUtxo state).rest.other = state.rest.other := by
    have hentered := congrArg (fun s => s.rest.other) hsame
    exact (activatePendingShelleyGenesis_other _).symm.trans hentered
  rw [enterLedger_eq, activatePendingShelleyGenesis, if_pos hbyron] at hsame
  exact
    { utxo := congrArg (fun s => s.rest.pendingShelleyGenesisUtxo) hsame.symm
      stake := congrArg (fun s => s.rest.pendingShelleyGenesisStake) hsame.symm
      pools := congrArg (fun s => s.rest.pendingShelleyGenesisPools) hsame.symm
      delegs := congrArg (fun s => s.rest.pendingShelleyGenesisDelegs) hsame.symm
      translated := translateShelleyUtxo_of_other hother }

theorem enterLedger_eq_iff (state : BoundaryState) :
    enterLedger slot state = state ↔
      NothingDue slot state ∧ (state.currentEra = .byron → NothingPending state) := by
  rw [← adoptScheduledGenesisDelegations_eq_iff]
  by_cases hera : state.currentEra = .byron
  · have hquiet : NothingPending state →
        enterLedger slot state = adoptScheduledGenesisDelegations slot state := by
      intro hnothing
      rw [enterLedger_eq, hnothing.translated,
        activatePendingShelleyGenesis_of_nothingPending hnothing]
    constructor
    · intro hsame
      have hnothing := nothingPending_of_enterLedger hera hsame
      exact ⟨(hquiet hnothing).symm.trans hsame, fun _ => hnothing⟩
    · rintro ⟨hsame, hnothing⟩
      rw [hquiet (hnothing hera), hsame]
  · rw [enterLedger_of_later_era slot hera]
    simp [hera]

/-- The keys of the genesis funds that wait for the end of Byron. -/
def genesisKeys (state : BoundaryState) : List ShelleyTxIn :=
  (state.rest.pendingShelleyGenesisUtxo.getD []).map Prod.fst

/-- The entries that the set of Shelley takes over from Byron. -/
def translatedEntries (state : BoundaryState) : List (ShelleyTxIn × ShelleyTxOut) :=
  (KeyedMap.pairs state.multiEraUtxo).filterMap fun entry =>
    match entry.2 with
    | .shelley address amount => some (entry.1, ⟨address, amount⟩)
    | _ => none

theorem mem_of_translated {key : ShelleyTxIn} (hkey : key ∈ (translatedEntries state).map Prod.fst) :
    key ∈ state.multiEraUtxo := by
  obtain ⟨entry, hentry, rfl⟩ := List.mem_map.mp hkey
  obtain ⟨source, hsource, hsome⟩ := List.mem_filterMap.mp hentry
  have hfst : source.1 = entry.1 := by
    split at hsome <;> cases hsome
    rfl
  rw [← hfst]
  obtain ⟨pair, hpair, rfl⟩ := List.mem_map.mp hsource
  exact AList.mem_keys.mpr (List.mem_map_of_mem hpair)

/-- What entering a block that ends Byron does to the sets of outputs. -/
theorem enterLedger_of_byron (hera : state.currentEra = .byron) :
    (enterLedger slot state).multiEraUtxo =
        insertGenesisUtxo (state.rest.pendingShelleyGenesisUtxo.getD []) state.multiEraUtxo ∧
      (enterLedger slot state).rest.other.shelleyUtxo =
        KeyedMap.insertAll (translatedEntries state ++
          (state.rest.pendingShelleyGenesisUtxo.getD []).map fun entry =>
            (entry.1, (⟨entry.2.1, entry.2.2⟩ : ShelleyTxOut))) state.rest.other.shelleyUtxo ∧
      (enterLedger slot state).rest.pendingShelleyGenesisUtxo = none := by
  unfold enterLedger prepareBlock activatePendingShelleyGenesis translateShelleyUtxo
  simp only [if_pos hera]
  exact ⟨trivial, rfl, rfl⟩

theorem mem_enterLedger {key : ShelleyTxIn} (hkey : key ∈ state.multiEraUtxo) :
    key ∈ (enterLedger slot state).multiEraUtxo := by
  by_cases hera : state.currentEra = .byron
  · rw [(enterLedger_of_byron slot hera).1]
    exact (mem_insertAll _ _ _).mpr (.inr hkey)
  · rw [enterLedger_of_later_era slot hera]
    exact hkey

/-! ## Failed calls -/

section

variable {More Evaluator : Type} {env : LedgerCallEnv More Evaluator}

namespace LedgerCall

/-- A block of a later era than Byron activates the Shelley genesis. -/
def activates : LedgerCall env → Bool
  | earlyBlock _ | scriptBlock _ _ => true
  | byronBlock _ | submission _ _ _ => false

variable (call : LedgerCall env) (state : BoundaryState)

/-- Nothing waits for the call to come. -/
def Settled : Prop :=
  NothingDue call.slot state ∧
    (call.activates = true → state.currentEra = .byron → NothingPending state)

theorem enter_eq_iff : call.parts.enter state = state ↔ call.Settled state := by
  cases call with
  | byronBlock block | submission slot evaluator tx =>
    exact (adoptScheduledGenesisDelegations_eq_iff _ _).trans
      ⟨fun hdue => ⟨hdue, nofun⟩, fun hsettled => hsettled.1⟩
  | earlyBlock block | scriptBlock block evaluator =>
    exact (enterLedger_eq_iff _ _).trans (and_congr_right fun _ => by simp [activates])

/-- The call is refused for its slot or its era, before it changes anything. -/
def RefusedAtOnce : Prop := (call.parts.guard state).isOk = false

/-- The call is refused after it has changed what was due and before it commits. -/
def RefusedBeforeCommit : Prop :=
  (call.parts.guard state).isOk = true ∧ (call.parts.stage (call.parts.enter state)).isOk = false

/-- The ids of the call are new to all sets of outputs, and the first transaction consumes one. -/
structure Fresh : Prop where
  ids : ∀ key : ShelleyTxIn,
    key ∈ state.multiEraUtxo ∨ key ∈ state.rest.other.shelleyUtxo ∨ key ∈ genesisKeys state →
      key.transactionId ∉ call.transactionIds
  first : call.FirstConsumes state

variable {call state} {key : ShelleyTxIn}

/-- An output of a set after the entry was there before, or it is one of the genesis that the entry
has activated. -/
theorem mem_enter_multiEraUtxo (hkey : key ∈ (call.parts.enter state).multiEraUtxo) :
    key ∈ state.multiEraUtxo ∨ (key ∈ genesisKeys state ∧
      (call.parts.enter state).rest.pendingShelleyGenesisUtxo = none) := by
  cases call with
  | byronBlock block | submission slot evaluator tx => exact .inl hkey
  | earlyBlock block | scriptBlock block evaluator =>
    by_cases hera : state.currentEra = .byron
    · obtain ⟨hutxo, -, hpending⟩ := enterLedger_of_byron block.header.slotNo hera
      rcases (mem_insertAll _ _ _).mp (hutxo ▸ hkey) with hfunds | hkept
      · exact .inr ⟨by simpa [genesisKeys] using hfunds, hpending⟩
      · exact .inl hkept
    · have hlater := enterLedger_of_later_era block.header.slotNo hera
      exact .inl ((congrArg (key ∈ ·.multiEraUtxo) hlater).mp hkey)

theorem mem_enter_shelleyUtxo (hkey : key ∈ (call.parts.enter state).rest.other.shelleyUtxo) :
    key ∈ state.rest.other.shelleyUtxo ∨ key ∈ state.multiEraUtxo ∨ (key ∈ genesisKeys state ∧
      (call.parts.enter state).rest.pendingShelleyGenesisUtxo = none) := by
  cases call with
  | byronBlock block | submission slot evaluator tx => exact .inl hkey
  | earlyBlock block | scriptBlock block evaluator =>
    by_cases hera : state.currentEra = .byron
    · obtain ⟨-, hutxo, hpending⟩ := enterLedger_of_byron block.header.slotNo hera
      rcases (mem_insertAll _ _ _).mp (hutxo ▸ hkey) with hnew | hkept
      · rw [List.map_append, List.mem_append] at hnew
        rcases hnew with htranslated | hfunds
        · exact .inr (.inl (mem_of_translated htranslated))
        · exact .inr (.inr ⟨by simpa [genesisKeys] using hfunds, hpending⟩)
      · exact .inl hkept
    · have hlater := enterLedger_of_later_era block.header.slotNo hera
      exact .inl ((congrArg (key ∈ ·.rest.other.shelleyUtxo) hlater).mp hkey)

theorem firstConsumes_enter (hfirst : call.FirstConsumes state) :
    call.FirstConsumes (call.parts.enter state) := by
  cases call with
  | byronBlock block | submission slot evaluator tx | earlyBlock block => exact hfirst
  | scriptBlock block evaluator =>
    intro first later hdecode
    refine (hfirst first later hdecode).imp_right ?_
    rintro ⟨input, hinput, hheld⟩
    exact ⟨input, hinput, mem_enterLedger _ hheld⟩

/-- The sets of outputs, and the genesis funds that wait. -/
def outputSets (state : BoundaryState) :
    MultiEraUtxo × ShelleyUtxo × Option (List (ShelleyTxIn × Bytes × UInt64)) :=
  (state.multiEraUtxo, state.rest.other.shelleyUtxo, state.rest.pendingShelleyGenesisUtxo)

theorem outputSets_stopped (call : LedgerCall env) (entered committed : BoundaryState)
    (items : List Leftover) :
    outputSets (call.parts.undo entered (foldKeep call.parts.finish committed items).1) =
      outputSets committed := by
  have hloop : outputSets (foldKeep call.parts.finish committed items).1 = outputSets committed := by
    refine foldKeep_keeps (outputSets · = outputSets committed) ?_ rfl
    intro state item next hstate hfinish
    have hnext : finishTx call.slot state item = .ok next := by cases call <;> exact hfinish
    obtain ⟨pending, -, hreturn⟩ := bind_eq_ok.mp hnext
    cases hreturn
    exact hstate
  refine Eq.trans ?_ hloop
  cases call <;> rfl

/-- A refusal after the commit leaves the outputs spent. -/
theorem changed_of_commit {committed : BoundaryState} {items : List Leftover}
    (hstage : call.parts.stage (call.parts.enter state) = .ok (committed, items))
    (hitems : items ≠ []) (hfresh : call.Fresh state) :
    call.parts.undo (call.parts.enter state) (foldKeep call.parts.finish committed items).1 ≠
      state := by
  intro hsame
  have hsets := (congrArg outputSets hsame).symm.trans (outputSets_stopped call _ committed items)
  simp only [outputSets, Prod.mk.injEq] at hsets
  obtain ⟨hcommon, hshelley, hpending⟩ := hsets
  -- Funds that were activated are gone from the pending ones, and nothing puts them back.
  have hfunds : (call.parts.enter state).rest.pendingShelleyGenesisUtxo = none →
      genesisKeys state = [] := by
    intro hnone
    have hframe := congrArg Prod.snd (staged_parts call hstage).1
    unfold genesisKeys
    rw [hpending, show committed.rest.pendingShelleyGenesisUtxo = none from hframe.trans hnone]
    rfl
  have hwaiting : ∀ key, ¬ (key ∈ genesisKeys state ∧
      (call.parts.enter state).rest.pendingShelleyGenesisUtxo = none) := by
    rintro key ⟨hkey, hnone⟩
    simp [hfunds hnone] at hkey
  cases lost_of_stage call hstage hitems (firstConsumes_enter hfresh.first) with
  | shelley key hheld hgone =>
    have hbefore := mem_enter_shelleyUtxo hheld
    simp only [hwaiting, or_false] at hbefore
    obtain ⟨hnotShelley, hnotCommon⟩ := hgone (hfresh.ids key (hbefore.symm.imp_right .inl))
    rw [← hcommon] at hnotCommon
    rw [← hshelley] at hnotShelley
    exact hbefore.elim hnotShelley hnotCommon
  | common key hheld hgone =>
    have hbefore := (mem_enter_multiEraUtxo hheld).resolve_right (hwaiting key)
    exact hgone (hfresh.ids key (.inl hbefore)) (hcommon ▸ hbefore)

/-- **Failed calls.**  A block or submission that fails leaves the ledger state as it was exactly
when it is refused at once, or before its commit with nothing due or pending. -/
theorem unchanged_iff (call : LedgerCall env) (state : BoundaryState) (failure : Failure)
    (hfail : (call.run state).2 = .error failure) (hfresh : call.Fresh state) :
    (call.run state).1 = state ↔
      call.RefusedAtOnce state ∨ (call.RefusedBeforeCommit state ∧ call.Settled state) := by
  rw [← enter_eq_iff]
  refine (call.parts.run_unchanged_iff hfail).trans ?_
  unfold StagedCall.Traceless RefusedAtOnce RefusedBeforeCommit
  cases hguard : call.parts.guard state with
  | error reason => simp [Except.toBool]
  | ok done =>
    cases hstage : call.parts.stage (call.parts.enter state) with
    | error reason => simp [Except.toBool]
    | ok staged =>
      obtain ⟨committed, items⟩ := staged
      have hitems : items ≠ [] := by
        rintro rfl
        simp [LedgerCall.run, StagedCall.run, hguard, hstage, foldKeep] at hfail
      simp [Except.toBool, changed_of_commit hstage hitems hfresh]

end LedgerCall

end

/-! ## Three refusals -/

/-- A delegation scheduled for slot 5, and ten ada in both sets. -/
def scheduledState : BoundaryState :=
  { BoundaryState.new .shelley with
    tip := .blockPoint 4 3
    protocolParams := some {}
    multiEraUtxo := KeyedMap.single ⟨1, 0⟩ (.shelley [] 10000000)
    rest := { (BoundaryState.new .shelley).rest with
      futureGenDelegs := KeyedMap.single (5, 1) ⟨2, 3⟩
      other := { (BoundaryState.new .shelley).rest.other with
        shelleyUtxo := KeyedMap.single ⟨1, 0⟩ ⟨[], 10000000⟩ } } }

/-- Nothing decodes in a block. -/
def refusalEnv : LedgerCallEnv (Option ShelleyUpdate) Unit := .permissive fun _ => reject .noInputs

/-- An empty Shelley block whose header has 2000 bytes. -/
def longHeaderBlock (slot : SlotNo) : LedgerCall refusalEnv :=
  .earlyBlock ⟨.shelley, ⟨9, 3, slot, 4⟩, none, some 2000, []⟩

/-- An Alonzo transaction that claims its scripts fail. -/
def failedScriptsSubmission : LedgerCall refusalEnv :=
  .submission 6 none (.alonzo
    { id := 2
      size := 0
      body :=
        { inputs := [⟨1, 0⟩], outputs := [], fee := 0, ttl := none, validityIntervalStart := none
          certificates := none, withdrawals := none, updateProposers := none, mint := none
          collateral := none, requiredSigners := none, collateralReturn := none
          totalCollateral := none, referenceInputs := none, voters := none
          treasuryDonation := none, extra := ⟨none, none, none, none, none⟩ }
      outputRawSizes := none
      collateralReturnRawSize := none
      witnessBytes := none
      auxiliaryData := none
      isValid := some false })

/-- A payment that carries the vote of a key that is no genesis key. -/
def strangerVoteSubmission : LedgerCall refusalEnv :=
  .submission 4 none (.shelley
    { id := 2
      size := 0
      body := ⟨[⟨1, 0⟩], [⟨[], 9800000⟩], 200000, 100⟩
      certificates := none
      withdrawals := none
      witnessBytes := none
      auxiliaryData := none
      more := some ⟨KeyedMap.single 7 {}, 0⟩ })

/-- A block whose slot has passed is refused at once and leaves the state alone; a vote of a
stranger is refused after the commit and does not. -/
theorem pastBlock_unchanged : ((longHeaderBlock 4).run scheduledState).1 = scheduledState ∧
    (strangerVoteSubmission.run scheduledState).1 ≠ scheduledState := by
  have hpast : ((longHeaderBlock 4).run scheduledState).2 =
      .error (.error (.slotNotIncreasing 4 4)) := rfl
  have hstranger : (strangerVoteSubmission.run scheduledState).2 =
      .error (.error (.nonGenesisUpdatePPUP 7)) := rfl
  have hheld : ∀ key : ShelleyTxIn, key ∈ scheduledState.multiEraUtxo ∨
      key ∈ scheduledState.rest.other.shelleyUtxo ∨ key ∈ genesisKeys scheduledState →
        key.transactionId ∉ strangerVoteSubmission.transactionIds := by
    rintro key (hkey | hkey | hkey)
    · cases List.mem_singleton.mp hkey
      decide
    · cases List.mem_singleton.mp hkey
      decide
    · cases hkey
  have hcommitted := (strangerVoteSubmission.unchanged_iff scheduledState _ hstranger
    ⟨hheld, trivial⟩).not.mpr (not_or.mpr ⟨nofun, fun hearly => nomatch hearly.1.2⟩)
  exact ⟨((longHeaderBlock 4).unchanged_iff scheduledState _ hpast
    ⟨fun _ _ => List.not_mem_nil, trivial⟩).mpr (.inl rfl), hcommitted⟩

/-- Three calls that fail and leave changes: a block with a long header and a submission that
claims failed scripts have adopted the scheduled delegation, and a submission whose vote is refused
has spent its input. -/
theorem failedCalls_leave_changes :
    scheduledState.rest.genDelegs.lookup 1 = none ∧
      ((longHeaderBlock 6).run scheduledState).2 = .error (.error (.headerTooLarge 2000 1100)) ∧
      ((longHeaderBlock 6).run scheduledState).1.rest.genDelegs.lookup 1 = some ⟨2, 3⟩ ∧
      (failedScriptsSubmission.run scheduledState).2 = .error (.error .submittedTxIsInvalid) ∧
      (failedScriptsSubmission.run scheduledState).1.rest.genDelegs.lookup 1 = some ⟨2, 3⟩ ∧
      (strangerVoteSubmission.run scheduledState).2 = .error (.error (.nonGenesisUpdatePPUP 7)) ∧
      scheduledState.multiEraUtxo.lookup ⟨1, 0⟩ = some (.shelley [] 10000000) ∧
      (strangerVoteSubmission.run scheduledState).1.multiEraUtxo.lookup ⟨1, 0⟩ = none := by
  refine ⟨rfl, rfl, rfl, rfl, rfl, rfl, rfl, rfl⟩

end Yggdrasil.Ledger
