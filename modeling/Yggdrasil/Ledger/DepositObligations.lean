import Yggdrasil.Ledger.BlockConservation
import Yggdrasil.Ledger.EarlyBlocks
import Yggdrasil.Ledger.EpochRefunds
import Yggdrasil.Library.Runs

/-!
# The deposit pot and the deposits on record

Every deposit is recorded with what it was paid for: a stake credential, a pool, a representative
or a pending proposal.  The pot of one kind should hold the sum of these records.  This module
follows the difference between the two through certificates and blocks of every era from Shelley
on.  Each block changes it by an amount read off the block: what a refund differs from the deposit
on record, proposals that replace others, and words that saturate.  An epoch boundary keeps a right
pot right (`boundaryRun_matches`).
-/

namespace Yggdrasil.Ledger

open Library KeyedMap

/-! ## Certificates -/

namespace DepositPot

variable (pot : DepositPot)

theorem natCast_addDeposit (kind other : DepositKind) (amount : UInt64) :
    (((pot.addDeposit kind amount).deposits other).toNat : Int) =
      (pot.deposits other).toNat +
        if other = kind then amount.toNat + wordError ((pot.deposits kind).toNat + amount.toNat)
        else 0 := by
  unfold addDeposit
  rw [deposits_setDeposits]
  by_cases hsame : other = kind
  · rw [if_pos hsame, if_pos hsame, natCast_saturatingAdd, hsame, add_assoc]
  · rw [if_neg hsame, if_neg hsame, add_zero]

theorem natCast_returnDeposit (kind other : DepositKind) (amount : UInt64) :
    (((pot.returnDeposit kind amount).deposits other).toNat : Int) =
      (pot.deposits other).toNat +
        if other = kind then wordError ((pot.deposits kind).toNat - amount.toNat) - amount.toNat
        else 0 := by
  unfold returnDeposit
  rw [deposits_setDeposits]
  by_cases hsame : other = kind
  · rw [if_pos hsame, if_pos hsame, natCast_saturatingSub, hsame]
    ring
  · rw [if_neg hsame, if_neg hsame, add_zero]

end DepositPot

/-- What a movement does to the difference between pot and record: a deposit that overflows the
pot, a refund that is not the deposit on record or not in the pot. -/
def Movement.mismatch (books : Books) (other : DepositKind) : Movement → Int
  | none => 0
  | deposit kind amount =>
    if other = kind then wordError ((books.depositPot.deposits kind).toNat + amount.toNat) else 0
  | refund kind amount onRecord =>
    if other = kind then
      onRecord.toNat - amount.toNat +
        wordError ((books.depositPot.deposits kind).toNat - amount.toNat)
    else 0

/-- What the pot holds of one kind beyond the registries. -/
def certGap (kind : DepositKind) (state : CertState) : Int :=
  (state.depositPot.deposits kind).toNat - recorded state kind

/-- A step that does what a movement says changes the difference by its mismatch. -/
theorem certGap_of_follows {movement : Movement} {progress next : CertProgress}
    (hfollows : Follows movement progress next) (kind : DepositKind) :
    certGap kind next.toCertState =
      certGap kind progress.toCertState + movement.mismatch progress.books kind := by
  have hrecord := hfollows.record kind
  have hpot : next.depositPot = (movement.perform progress.books).depositPot :=
    congrArg Books.depositPot hfollows.books
  have hbefore : progress.books.depositPot = progress.depositPot := rfl
  unfold certGap
  rw [hpot]
  cases movement with
  | none =>
    simp only [Movement.perform, Movement.mismatch, Movement.released, Movement.paid,
      hbefore] at hrecord ⊢
    omega
  | deposit paidKind amount =>
    have hword := progress.depositPot.natCast_addDeposit paidKind kind amount
    simp only [Movement.perform, Movement.mismatch, Movement.released, Movement.paid,
      hbefore] at hrecord ⊢
    rw [hword]
    split_ifs at hrecord ⊢ with hsame
    · omega
    · omega
  | refund paidKind amount onRecord =>
    have hword := progress.depositPot.natCast_returnDeposit paidKind kind amount
    simp only [Movement.perform, Movement.mismatch, Movement.released, Movement.paid,
      hbefore] at hrecord ⊢
    rw [hword]
    split_ifs at hrecord ⊢ with hsame
    · subst hsame
      omega
    · omega

section

variable {Update : Type} (env : CertEnv Update)

/-- What the certificates of a transaction do to the difference. -/
def certificateMismatch (state : CertState) (certificates : Option (List Certificate))
    (withdrawals : Option (List (RewardAccount × UInt64))) (kind : DepositKind) : Int :=
  match afterWithdrawals state withdrawals with
  | .error _ => 0
  | .ok start =>
    sumAlong (applyCertificate env) (fun progress certificate =>
      (movementOf env.context progress.toCertState certificate.1).mismatch progress.books kind)
      start (certificates.getD []).zipIdx

variable {env}

theorem applyCertificatesAndWithdrawals_certGap {state certified : CertState}
    {certificates : Option (List Certificate)}
    {withdrawals : Option (List (RewardAccount × UInt64))} {adjustments : Adjustments}
    (hrun : applyCertificatesAndWithdrawals env state certificates withdrawals =
      .ok (certified, adjustments)) (kind : DepositKind) :
    certGap kind certified =
      certGap kind state + certificateMismatch env state certificates withdrawals kind := by
  obtain ⟨start, hstart, hrest⟩ := bind_eq_ok.mp hrun
  obtain ⟨progress, hloop, hreturn⟩ := bind_eq_ok.mp hrest
  cases hreturn
  unfold certificateMismatch
  rw [hstart]
  -- withdrawals touch neither the pot nor the registries
  have hbegin : certGap kind start.toCertState = certGap kind state := by
    obtain ⟨accounts, _, hbegin⟩ := bind_eq_ok.mp hstart
    cases hbegin
    cases kind <;> rfl
  rw [← hbegin]
  refine measure_foldlM (fun _ => True) (fun progress =>
    certGap kind _) _ (fun _ _ _ _ _ _ => trivial) ?_ trivial
    (along_of_forall (fun _ _ _ => trivial) start) hloop
  intro current certificate next _ _ hnext
  exact certGap_of_follows (applyCertificate_follows hnext) kind

end

/-! ## Votes and proposals -/

section

variable {Update : Type}

/-- The deposits of pending proposals, by kind. -/
def proposed (actions : GovernanceActions Update) : DepositKind → Nat
  | .proposal => total (·.proposal.deposit.toNat) actions
  | _ => 0

theorem total_touchVotingDreps (voting : VotingProcedures) (epoch : EpochNo) (dreps : DrepState) :
    total (·.deposit.toNat) (touchVotingDreps voting epoch dreps) =
      total (·.deposit.toNat) dreps := by
  refine foldl_keeps _
    (fun dreps drep => ?_) _ dreps
  apply total_modify_of_eq
  exact fun _ => rfl

theorem total_touchDrepActivity (certificates : List Certificate) (epoch : EpochNo)
    (dreps : DrepState) :
    total (·.deposit.toNat) (touchDrepActivityForCerts certificates epoch dreps) =
      total (·.deposit.toNat) dreps := by
  refine foldl_keeps _
    (fun dreps certificate => ?_) _ dreps
  split
  · apply total_modify_of_eq
    exact fun _ => rfl
  · apply total_modify_of_eq
    exact fun _ => rfl
  · rfl

theorem total_updateDormantDrepExpiries (hasProposals : Bool) (currentEpoch : EpochNo)
    (drepActivity : UInt64) (dreps : DrepState) (numDormant : UInt64) :
    total (·.deposit.toNat)
        (updateDormantDrepExpiries hasProposals currentEpoch drepActivity dreps numDormant).1 =
      total (·.deposit.toNat) dreps := by
  unfold updateDormantDrepExpiries
  split
  · rfl
  · rw [total_mapValues]
    congr 1
    funext drep
    cases drep.lastActiveEpoch with
    | none => rfl
    | some lastActive =>
      dsimp only
      split <;> rfl

theorem proposed_votes (leaving : List Voter) (voting : VotingProcedures)
    (actions : GovernanceActions Update) (kind : DepositKind) :
    proposed (removeConwayDrepVotes leaving (recordVotes voting actions)) kind =
      proposed actions kind := by
  have hrecorded : total (fun action =>
      action.proposal.deposit.toNat) (recordVotes voting actions) =
        total (·.proposal.deposit.toNat) actions := by
    refine foldl_keeps _ (fun actions ballot => ?_) _ actions
    refine foldl_keeps _ (fun actions vote => ?_) _ actions
    apply total_modify_of_eq
    exact fun _ => rfl
  cases kind with
  | proposal =>
    unfold proposed removeConwayDrepVotes
    rw [total_mapValues]
    exact hrecorded
  | key | pool | drep => rfl

theorem stageProposals_eq_insertAll
    {check : GovernanceActions Update → Nat → ProposalProcedure Update → Result Unit}
    {txId : TxId} {epoch : EpochNo} {lifetime : Option UInt64}
    {actions staged : GovernanceActions Update} {proposals : List (ProposalProcedure Update)}
    (hrun : stageProposals check txId epoch lifetime actions proposals = .ok staged) :
    staged = insertAll (proposals.zipIdx.map fun proposal =>
      (⟨txId, .ofNat proposal.2⟩, .newWithLifetime proposal.1 epoch lifetime)) actions := by
  unfold stageProposals at hrun
  generalize proposals.zipIdx = indexed at hrun ⊢
  induction indexed generalizing actions with
  | nil =>
    cases hrun
    rfl
  | cons proposal rest ih =>
    obtain ⟨next, hnext, hrest⟩ := foldlM_cons_eq_ok.mp hrun
    obtain ⟨_, _, hreturn⟩ := bind_eq_ok.mp hnext
    cases hreturn
    exact ih hrest

end

/-! ## Transactions -/

/-- What the pot holds of one kind beyond the deposits on record. -/
def depositGap {Update Other : Type} (kind : DepositKind) (rest : LedgerRest Update Other) : Int :=
  certGap kind rest.toCertState - proposed rest.governanceActions kind

section

variable {Update Other More Evaluator : Type} {checks : Checks Update Other More Evaluator}
  {context : TxContext Update Other More Evaluator}

/-- The actions that a transaction proposes, under the names they get. -/
def proposalEntries (context : TxContext Update Other More Evaluator) :
    List (GovActionId × GovernanceActionState Update) :=
  (context.tx.body.extra.proposalProcedures.getD []).zipIdx.map fun proposal =>
    (⟨context.tx.id, .ofNat proposal.2⟩, .newWithLifetime proposal.1
      context.state.rest.currentEpoch (context.state.protocolParams.bind (·.govActionLifetime)))

/-- The deposits of the actions that a transaction proposes. -/
def proposalSum (context : TxContext Update Other More Evaluator) : Nat :=
  ((context.tx.body.extra.proposalProcedures.getD []).map (·.deposit.toNat)).sum

/-- The deposits of pending actions that a transaction replaces. -/
def replacedProposals (context : TxContext Update Other More Evaluator) : Nat :=
  overwritten (·.proposal.deposit.toNat) (proposalEntries context)
    context.rest.governanceActions

theorem sum_proposalEntries (context : TxContext Update Other More Evaluator) :
    ((proposalEntries context).map fun entry => entry.2.proposal.deposit.toNat).sum =
      proposalSum context := by
  unfold proposalEntries proposalSum
  rw [List.map_map]
  conv_rhs => rw [← List.zipIdx_map_fst 0 (context.tx.body.extra.proposalProcedures.getD []),
    List.map_map]
  rfl

/-- Staged proposals are pending, except those that a later one or their number replaces. -/
theorem proposed_insertAll (context : TxContext Update Other More Evaluator) :
    proposed (insertAll (proposalEntries context) context.rest.governanceActions)
        .proposal + replacedProposals context =
      proposed context.rest.governanceActions .proposal + proposalSum context := by
  have hinserted := total_insertAll_add
    (fun action => action.proposal.deposit.toNat)
    (proposalEntries context) context.rest.governanceActions
  rw [sum_proposalEntries] at hinserted
  exact hinserted

theorem proposalEntries_eq_nil (hnone : context.tx.body.extra.proposalProcedures = none) :
    proposalEntries context = [] := by
  simp [proposalEntries, hnone]

variable {governed : LedgerRest Update Other}

/-- What the rules of Conway change before the certificates: the activity of representatives and
the pending actions. -/
theorem conwayGovernance_spec (hrun : conwayGovernance checks context = .ok governed) :
    total (·.deposit.toNat) governed.drepState =
        total (·.deposit.toNat) context.rest.drepState ∧
      proposed governed.governanceActions .proposal + replacedProposals context =
        proposed context.rest.governanceActions .proposal + proposalSum context := by
  unfold conwayGovernance at hrun
  simp only [bind_eq_ok] at hrun
  obtain ⟨_, _, _, _, hgovern⟩ := hrun
  have hdormant := total_updateDormantDrepExpiries
    (context.tx.body.extra.proposalProcedures.any (!·.isEmpty)) context.state.rest.currentEpoch
    ((context.state.protocolParams.bind (·.drepActivity)).getD 0) context.rest.drepState
    context.rest.numDormantEpochs
  split at hgovern
  · unfold governVotesAndProposals at hgovern
    simp only [bind_eq_ok] at hgovern
    obtain ⟨_, _, _, _, actions, hstage, _, _, hreturn⟩ := hgovern
    cases hreturn
    constructor
    · exact (total_touchVotingDreps _ _ _).trans hdormant
    · rw [← proposed_insertAll context]
      congr 1
      refine (proposed_votes _ _ _ .proposal).trans ?_
      exact congrArg (proposed · .proposal) (stageProposals_eq_insertAll hstage)
  · rename_i hquiet
    cases hgovern
    refine ⟨hdormant, ?_⟩
    have hnone : context.tx.body.extra.proposalProcedures = none := by
      unfold governs at hquiet
      simp only [Bool.not_eq_true, Bool.or_eq_false_iff, Option.isSome_eq_false_iff,
        Option.isNone_iff_eq_none] at hquiet
      exact hquiet.1.2
    rw [← proposed_insertAll context, proposalEntries_eq_nil hnone]
    rfl

/-- The rules before the certificates add the proposals; pot and registries keep their deposits. -/
theorem beforeCertificates_deposits (hrun : beforeCertificates checks context = .ok governed)
    (kind : DepositKind) :
    certGap kind governed.toCertState = certGap kind context.rest.toCertState ∧
      proposed governed.governanceActions kind +
          (if context.era = .conway ∧ kind = .proposal then replacedProposals context else 0) =
        proposed context.rest.governanceActions kind +
          if context.era = .conway ∧ kind = .proposal then proposalSum context else 0 := by
  obtain ⟨dreps, dormant, actions, hgoverned⟩ := beforeCertificates_frame hrun
  unfold beforeCertificates at hrun
  split at hrun
  · rename_i hconway
    obtain ⟨hdreps, hproposed⟩ := conwayGovernance_spec hrun
    rw [hgoverned] at hdreps hproposed ⊢
    constructor
    · unfold certGap
      cases kind with
      | drep =>
        dsimp only [recorded] at hdreps ⊢
        rw [hdreps]
      | key | pool | proposal => rfl
    · cases kind with
      | proposal => simpa [hconway] using hproposed
      | key | pool | drep => simp [proposed]
  · rename_i hearly
    cases hrun
    simp [hearly]

/-- What proposals do to the difference: sums that overflow, and proposals that are replaced
without a refund. -/
def proposalMismatch (context : TxContext Update Other More Evaluator) : Int :=
  wordError (proposalSum context) + replacedProposals context +
    wordError (context.rest.depositPot.proposalDeposits.toNat +
      (proposalDeposits context.tx.body.extra).toNat)

/-- What the effects of a transaction do to the difference. -/
def effectMismatch (checks : Checks Update Other More Evaluator)
    (context : TxContext Update Other More Evaluator) (kind : DepositKind) : Int :=
  match beforeCertificates checks context with
  | .error _ => 0
  | .ok governed =>
    certificateMismatch (certEnv context) governed.toCertState
        context.tx.body.extra.certificates context.tx.body.withdrawals kind +
      if context.era = .conway ∧ kind = .proposal then proposalMismatch context else 0

theorem movementOf_proposal (validation : CertificateValidationContext) (state : CertState)
    (certificate : Certificate) (books : Books) :
    (movementOf validation state certificate).mismatch books .proposal = 0 := by
  cases certificate with
  | poolRegistration params =>
    unfold movementOf
    dsimp only
    split <;> rfl
  | _ => rfl

theorem certificateMismatch_proposal (env : CertEnv Update) (state : CertState)
    (certificates : Option (List Certificate))
    (withdrawals : Option (List (RewardAccount × UInt64))) :
    certificateMismatch env state certificates withdrawals .proposal = 0 := by
  unfold certificateMismatch
  cases afterWithdrawals state withdrawals with
  | error failure => rfl
  | ok start =>
    simp only [movementOf_proposal]
    exact sumAlong_zero _ _ _

theorem natCast_proposalDeposits (context : TxContext Update Other More Evaluator) :
    ((proposalDeposits context.tx.body.extra).toNat : Int) =
      proposalSum context + wordError (proposalSum context) := by
  have hword := natCast_foldl_saturatingAdd
    ((context.tx.body.extra.proposalProcedures.getD []).map (·.deposit)) 0
  rw [List.map_map] at hword
  have hsum : ((context.tx.body.extra.proposalProcedures.getD []).map
      (UInt64.toNat ∘ fun proposal => proposal.deposit)).sum = proposalSum context := rfl
  rw [UInt64.toNat_zero, Nat.cast_zero, zero_add] at hword
  exact hword

variable (context) in
theorem conwayDeposits_certGap (rest : LedgerRest Update Other) (adjustments : Adjustments)
    (kind : DepositKind) :
    certGap kind (conwayDeposits context rest adjustments).1.toCertState =
      certGap kind rest.toCertState +
        if kind = .proposal then
          (proposalDeposits context.tx.body.extra).toNat +
            wordError (rest.depositPot.proposalDeposits.toNat +
              (proposalDeposits context.tx.body.extra).toNat)
        else 0 := by
  have hadded := rest.depositPot.natCast_addDeposit .proposal kind
    (proposalDeposits context.tx.body.extra)
  have hrecorded : recorded (conwayDeposits context rest adjustments).1.toCertState kind =
      recorded rest.toCertState kind := by
    cases kind with
    | drep => exact total_touchDrepActivity _ _ _
    | key | pool | proposal => rfl
  unfold certGap
  rw [hrecorded]
  change (((rest.depositPot.addDeposit .proposal
    (proposalDeposits context.tx.body.extra)).deposits kind).toNat : Int) - _ = _
  rw [hadded]
  dsimp only [DepositPot.deposits]
  ring

theorem txEffects_gap {rest : LedgerRest Update Other} {adjustments : Adjustments}
    (hrun : txEffects checks context = .ok (rest, adjustments)) (kind : DepositKind) :
    depositGap kind rest = depositGap kind context.rest + effectMismatch checks context kind := by
  obtain ⟨governed, hbefore, hrest⟩ := bind_eq_ok.mp hrun
  obtain ⟨⟨certified, certAdjustments⟩, hcertified, hreturn⟩ := bind_eq_ok.mp hrest
  obtain ⟨hgap, hproposed⟩ := beforeCertificates_deposits hbefore kind
  have hcerts := applyCertificatesAndWithdrawals_certGap hcertified kind
  have hpair := congrArg Prod.fst (Except.ok.inj hreturn)
  dsimp only at hpair
  unfold effectMismatch
  rw [hbefore, ← hpair]
  unfold depositGap
  by_cases hconway : context.era = .conway
  · have hpaid := conwayDeposits_certGap context
      { governed with toCertState := certified } certAdjustments kind
    simp only [hconway, if_true, true_and] at hproposed ⊢
    rw [hpaid]
    change _ - (proposed governed.governanceActions kind : Int) = _
    by_cases hkind : kind = .proposal
    · subst hkind
      have hnone := certificateMismatch_proposal (certEnv context) governed.toCertState
        context.tx.body.extra.certificates context.tx.body.withdrawals
      have hword := natCast_proposalDeposits context
      -- the certificates leave the deposits of proposals where they were
      have hkept : (certified.depositPot.proposalDeposits.toNat : Int) =
          context.rest.depositPot.proposalDeposits.toNat := by
        rw [hgap, hnone, add_zero] at hcerts
        simpa [certGap, recorded, DepositPot.deposits] using hcerts
      simp only [if_true, proposalMismatch, hkept] at hproposed ⊢
      omega
    · simp only [hkind, if_false] at hproposed ⊢
      omega
  · simp only [hconway, false_and, if_false] at hproposed ⊢
    omega

/-- What a transaction does to the difference; one whose scripts fail does nothing. -/
def txMismatch (checks : Checks Update Other More Evaluator)
    (context : TxContext Update Other More Evaluator) (kind : DepositKind) : Int :=
  if context.tx.txIsValid then effectMismatch checks context kind else 0

variable (context) in
theorem applyTx_gap {crypto : Crypto} {codec : Codec (TxContents Update More)}
    {next : Staged (LedgerRest Update Other)}
    (hrun : applyTx crypto codec (ledgerRules checks) context = .ok next) (kind : DepositKind) :
    depositGap kind next.rest = depositGap kind context.rest + txMismatch checks context kind := by
  unfold txMismatch
  obtain ⟨hvalid, _, heffects, _⟩ | ⟨hfailed, rfl⟩ := applyTx_cases hrun
  · rw [if_pos hvalid]
    exact txEffects_gap heffects kind
  · rw [if_neg hfailed, add_zero]

end

/-! ## Blocks -/

section

variable {Update Other More Evaluator : Type}

theorem total_registerGenesisPools (pools : List PoolParams) (registered : PoolState) :
    total (·.deposit.toNat) (pools.foldl (fun pools params =>
        pools.registerWithDeposit params 0) registered).entries =
      total (·.deposit.toNat) registered.entries := by
  refine foldl_keeps (fun pools =>
    total _ _) (fun pools params => ?_) pools registered
  rw [total_registerWithDeposit]
  split <;> rfl

theorem total_insertGenesisStake (entries : List (StakeCredential × PoolKeyHash))
    (credentials : StakeCredentials) :
    total (·.deposit.toNat) (insertGenesisStake entries credentials) =
      total (·.deposit.toNat) credentials := by
  refine foldl_keeps _ (fun credentials entry => ?_) entries _
  cases hlookup : credentials.lookup entry.1 with
  | none =>
    have hinsert := total_insert (fun state =>
      state.deposit.toNat) credentials entry.1 ⟨some entry.2, none, 0, none⟩
    simp only [amountAt, hlookup, Option.map_none, Option.getD_none,
      UInt64.toNat_zero] at hinsert
    exact hinsert
  | some state =>
    have hinsert := total_insert (fun state =>
      state.deposit.toNat) credentials entry.1 { state with delegatedPool := some entry.2 }
    rw [amountAt_of_lookup hlookup] at hinsert
    dsimp only at hinsert ⊢
    omega

theorem prepareBlock_gap (slot : SlotNo) (state : FullState Update Other) (kind : DepositKind) :
    depositGap kind (prepareBlock slot state).rest = depositGap kind state.rest := by
  unfold prepareBlock activatePendingShelleyGenesis
  split
  · unfold depositGap certGap
    congr 1
    cases kind with
    | key =>
      have hstake := total_insertGenesisStake (state.rest.pendingShelleyGenesisStake.getD [])
        state.rest.stakeCredentials
      exact congrArg (fun total : Nat => (_ - total : Int)) hstake
    | pool =>
      have hpools := total_registerGenesisPools (state.rest.pendingShelleyGenesisPools.getD [])
        state.rest.poolState
      exact congrArg (fun total : Nat => (_ - total : Int)) hpools
    | drep | proposal => rfl
  · cases kind <;> rfl

variable (crypto : Crypto) (codec : Codec (TxContents Update More))
  (checks : Checks Update Other More Evaluator)

/-- What a block with scripts does to the difference. -/
def blockMismatch (state : FullState Update Other) (block : ScriptBlock)
    (evaluator : Option Evaluator) (kind : DepositKind) : Int :=
  let entered := enteredState checks state block
  match block.transactions.mapM (decodeTx codec block.era) with
  | .error _ => 0
  | .ok txs =>
    sumAlong (blockRound crypto codec checks entered block evaluator)
      (fun staged tx => txMismatch checks (roundContext entered block evaluator staged tx) kind)
      (stagedOf entered) txs.zipIdx

variable {crypto codec checks}

variable {state after : FullState Update Other} {block : ScriptBlock} {evaluator : Option Evaluator}
  (happly : applyBlockValidated crypto codec (ledgerRules checks) state block evaluator = .ok after)
include happly

theorem decodes_of_applied :
    ∃ txs, block.transactions.mapM (decodeTx codec block.era) = .ok txs := by
  unfold applyBlockValidated at happly
  simp only [bind_eq_ok] at happly
  obtain ⟨_, _, _, _, _, _, applied, happlied, _⟩ := happly
  unfold applyEraBlock at happlied
  split at happlied
  · rename_i hempty
    rw [List.isEmpty_iff.mp hempty]
    exact ⟨[], rfl⟩
  · obtain ⟨txs, hdecode, _⟩ := bind_eq_ok.mp happlied
    exact ⟨txs, hdecode⟩

theorem applyBlockValidated_gap (kind : DepositKind) :
    depositGap kind after.rest =
      depositGap kind state.rest +
        blockMismatch crypto codec checks state block evaluator kind := by
  obtain ⟨txs, hdecode⟩ := decodes_of_applied happly
  obtain ⟨staged, hloop, -, hcerts, hactions, -⟩ := applyBlockValidated_transactions hdecode happly
  have hafter : depositGap kind after.rest = depositGap kind staged.rest := by
    unfold depositGap
    rw [hcerts, hactions]
  have hentered : depositGap kind (stagedOf (enteredState checks state block)).rest =
      depositGap kind state.rest := by
    unfold enteredState enterBlock
    rw [stagedOf_adoptBlockProtocolVersion]
    exact prepareBlock_gap _ state kind
  unfold blockMismatch
  rw [hdecode, hafter, ← hentered]
  have hmeasure := measure_foldlM (fun _ => True) (fun staged : Staged _ =>
    depositGap kind staged.rest) _ (fun _ _ _ _ _ _ => trivial) (fun current tx _ _ _ hnext =>
      applyTx_gap (roundContext _ block evaluator current tx) hnext kind) trivial
    (along_of_forall (fun _ _ _ => trivial) _) hloop
  exact hmeasure

end

/-! ## Blocks before scripts -/

section

variable {Utxo Body More : Type}

/-- What the transactions of a block without scripts do to the difference. -/
def earlyTransactionsMismatch (transition : Transition Utxo Body) (rules : EraRules Utxo Body More)
    (utxo : Utxo) (state : BoundaryState) (block : EarlyBlock) (kind : DepositKind) : Int :=
  match block.transactions.mapM rules.decode with
  | .error _ => 0
  | .ok txs =>
    sumAlong (applyEarlyTx transition rules state block.header.slotNo)
      (fun staged tx => certificateMismatch (earlyCertEnv state block.header.slotNo tx.2)
        staged.2 tx.1.certificates tx.1.withdrawals kind)
      (utxo, state.rest.toCertState) txs.zipIdx

variable {block : EarlyBlock} {state after : BoundaryState}

theorem applyEarlyTransactions_gap {transition : Transition Utxo Body}
    {rules : EraRules Utxo Body More} {utxo : Utxo} {commit : Utxo → BoundaryState → BoundaryState}
    (hcommit : ∀ utxo state, (commit utxo state).rest.toCertState = state.rest.toCertState ∧
      (commit utxo state).rest.governanceActions = state.rest.governanceActions)
    (happly : applyEarlyTransactions transition rules utxo commit state block = .ok after)
    (kind : DepositKind) :
    depositGap kind after.rest = depositGap kind state.rest +
      earlyTransactionsMismatch transition rules utxo state block kind := by
  unfold applyEarlyTransactions at happly
  unfold earlyTransactionsMismatch
  split at happly
  · rename_i hempty
    cases happly
    rw [List.isEmpty_iff.mp hempty, List.mapM_nil]
    exact (add_zero _).symm
  · simp only [bind_eq_ok] at happly
    obtain ⟨txs, hdecode, staged, hloop, hfinish⟩ := happly
    obtain ⟨other, _, hreturn⟩ := bind_eq_ok.mp hfinish
    cases hreturn
    rw [hdecode]
    have hcerts := measure_foldlM (fun _ => True)
      (fun staged => certGap kind staged.2) _
      (fun _ _ _ _ _ _ => trivial) (fun current tx next _ _ hnext => by
        obtain ⟨_, _, hrest⟩ := bind_eq_ok.mp hnext
        obtain ⟨⟨certified, adjustments⟩, hcertified, htransition⟩ := bind_eq_ok.mp hrest
        obtain ⟨utxo, _, hreturn⟩ := bind_eq_ok.mp htransition
        cases hreturn
        exact applyCertificatesAndWithdrawals_certGap hcertified kind) trivial
      (along_of_forall (fun _ _ _ => trivial) _) hloop
    obtain ⟨hcertState, hactions⟩ := hcommit staged.1
      { state with rest := { state.rest with toCertState := staged.2 } }
    unfold depositGap
    rw [hcertState, hactions]
    linarith only [hcerts]

/-- The state in which the transactions of a block without scripts start. -/
def enteredEarlyState (state : BoundaryState) (block : EarlyBlock) : BoundaryState :=
  adoptEarlyProtocolVersion block
    (prepareBlock block.header.slotNo (translateShelleyUtxo state))

/-- What a block without scripts does to the difference. -/
def earlyBlockMismatch (rules : EarlyRules More) (state : BoundaryState) (block : EarlyBlock)
    (kind : DepositKind) : Int :=
  let entered := enteredEarlyState state block
  match block.era with
  | .shelley =>
    earlyTransactionsMismatch ShelleyUtxo.applyTxWithWithdrawals rules.shelley
      entered.rest.other.shelleyUtxo entered block kind
  | .allegra =>
    earlyTransactionsMismatch applyAllegraTxWithdrawals rules.allegra entered.multiEraUtxo
      entered block kind
  | .mary =>
    earlyTransactionsMismatch applyMaryTxWithdrawals rules.mary entered.multiEraUtxo
      entered block kind

theorem applyEarlyEraBlock_gap {rules : EarlyRules More}
    (happly : applyEarlyEraBlock rules (enteredEarlyState state block) block = .ok after)
    (kind : DepositKind) :
    depositGap kind after.rest = depositGap kind (enteredEarlyState state block).rest +
      earlyBlockMismatch rules state block kind := by
  unfold applyEarlyEraBlock at happly
  unfold earlyBlockMismatch
  -- the eras differ in the UTxO set they run on, which holds no deposit
  cases hera : block.era
  all_goals
    rw [hera] at happly
    refine applyEarlyTransactions_gap ?_ happly kind
    exact fun _ _ => ⟨rfl, rfl⟩

/-- The translation of the UTxO set and the version of the parameters hold no deposit. -/
theorem translateShelleyUtxo_gap (state : BoundaryState) (kind : DepositKind) :
    depositGap kind (translateShelleyUtxo state).rest = depositGap kind state.rest := by
  unfold translateShelleyUtxo
  split <;> rfl

theorem enteredEarlyState_gap (state : BoundaryState) (block : EarlyBlock) (kind : DepositKind) :
    depositGap kind (enteredEarlyState state block).rest = depositGap kind state.rest := by
  unfold enteredEarlyState
  rw [rest_adoptEarlyProtocolVersion, prepareBlock_gap, translateShelleyUtxo_gap]

theorem applyEarlyBlockValidated_gap {rules : EarlyRules More}
    (happly : applyEarlyBlockValidated rules state block = .ok after) (kind : DepositKind) :
    depositGap kind after.rest =
      depositGap kind state.rest + earlyBlockMismatch rules state block kind := by
  unfold applyEarlyBlockValidated at happly
  simp only [bind_eq_ok] at happly
  obtain ⟨_, _, _, _, _, _, applied, happlied, hreturn⟩ := happly
  cases hreturn
  have hgap := applyEarlyEraBlock_gap happlied kind
  rw [enteredEarlyState_gap] at hgap
  exact hgap

end

/-! ## The epoch boundary -/

/-- The pot of every kind holds the deposits on record. -/
structure PotMatches (rest : BoundaryRest) : Prop where
  key : rest.depositPot.keyDeposits.toNat = total (·.deposit.toNat) rest.stakeCredentials
  pool : rest.depositPot.poolDeposits.toNat =
    total (·.deposit.toNat) rest.poolState.entries
  drep : rest.depositPot.drepDeposits.toNat = total (·.deposit.toNat) rest.drepState
  proposal : rest.depositPot.proposalDeposits.toNat =
    total (·.proposal.deposit.toNat) rest.governanceActions

theorem potMatches_iff {rest : BoundaryRest} :
    PotMatches rest ↔ ∀ kind, depositGap kind rest = 0 := by
  constructor
  · rintro ⟨hkey, hpool, hdrep, hproposal⟩ kind
    unfold depositGap certGap
    cases kind <;> dsimp only [DepositPot.deposits, recorded, proposed] <;> omega
  · intro hgap
    have hkey := hgap .key
    have hpool := hgap .pool
    have hdrep := hgap .drep
    have hproposal := hgap .proposal
    unfold depositGap certGap at hkey hpool hdrep hproposal
    dsimp only [DepositPot.deposits, recorded, proposed] at hkey hpool hdrep hproposal
    exact ⟨by omega, by omega, by omega, by omega⟩

variable (rest : BoundaryRest)

theorem applyMir_recorded (kind : DepositKind) :
    recorded (applyMirAtEpochBoundary rest).1.toCertState kind =
      recorded rest.toCertState kind := by
  unfold applyMirAtEpochBoundary
  dsimp only
  split
  · rfl
  · cases kind <;> rfl

theorem adoptStaged_recorded (kind : DepositKind) :
    recorded (adoptStaged rest).toCertState kind = recorded rest.toCertState kind := by
  cases kind with
  | pool => exact adoptStaged_pools rest
  | key | drep | proposal => rfl

variable (epoch newEpoch : EpochNo)

theorem retirePools_certGap (hpools : certGap .pool rest.toCertState = 0) (kind : DepositKind) :
    certGap kind (retirePoolsWithRefunds epoch rest).1.toCertState =
      certGap kind rest.toCertState := by
  unfold retirePoolsWithRefunds
  dsimp only
  split
  · rfl
  · cases kind with
    | pool =>
      have hsplit := total_keep (fun pool => pool.deposit.toNat)
        (fun _ pool => PoolState.retiresBy epoch pool) rest.poolState.entries
      rw [← retirementTotal_eq] at hsplit
      have hpaid := toNat_returnPools epoch rest.poolState rest.depositPot
      rw [hpools]
      unfold certGap at *
      rw [returnPools_eq]
      dsimp only [DepositPot.deposits, recorded, PoolState.processRetirements] at *
      omega
    | key =>
      have hcleared : total (·.deposit.toNat)
          (rest.stakeCredentials.clearPoolDelegations
            ((rest.poolState.retiring epoch).map Prod.fst)) =
            total (·.deposit.toNat) rest.stakeCredentials := by
        apply total_mapValues_of_eq
        intro credential
        split <;> rfl
      unfold certGap
      rw [returnPools_eq]
      dsimp only [DepositPot.deposits, recorded]
      rw [hcleared]
    | drep | proposal =>
      unfold certGap
      rw [returnPools_eq]
      rfl

theorem hardForkFixup_recorded (action : Action) (state : BoundaryState) (kind : DepositKind) :
    recorded (hardForkFixup action state).rest.toCertState kind =
      recorded state.rest.toCertState kind := by
  unfold hardForkFixup
  split
  · split
    · cases kind with
      | key =>
        dsimp only [recorded]
        apply total_mapValues_of_eq
        intro credential
        split <;> rfl
      | pool | drep | proposal => rfl
    · rfl
  · rfl

/-- Governance keeps the registries and, until it is closed, the pot. -/
theorem governBoundary_certGap (snapshots : StakeSnapshots) (drepActivity : UInt64)
    (state : BoundaryState) (kind : DepositKind) :
    certGap kind (governBoundary newEpoch snapshots drepActivity state).1.rest.toCertState =
      certGap kind state.rest.toCertState := by
  refine governBoundary_keeps newEpoch snapshots _ state
    (fun state => certGap kind state.rest.toCertState) (fun id action progress => ?_)
    fun actions accounts state => by cases kind <;> rfl
  obtain ⟨-, -, -, hpot, -⟩ := enactStep_spec id action progress
  have hrecorded : recorded (enactStep id action progress).state.rest.toCertState kind =
      recorded progress.state.rest.toCertState kind := by
    refine (hardForkFixup_recorded action.proposal.govAction _ kind).trans ?_
    cases kind <;> rfl
  unfold certGap
  rw [hpot, hrecorded]

section

variable (state : BoundaryState) (snapshots : StakeSnapshots)
  (dist : Rewards.EpochRewardDistribution)

/-- Up to the accounting, a boundary keeps the difference. -/
theorem accounted_gap (hpools : certGap .pool state.rest.toCertState = 0) (kind : DepositKind) :
    let run := boundaryRun newEpoch state snapshots dist
    certGap kind run.accounted.rest.toCertState = certGap kind state.rest.toCertState ∧
      run.accounted.rest.governanceActions = state.rest.governanceActions := by
  dsimp only [boundaryRun, payRewards, accountBoundary, updateParameters]
  generalize (distributeRewards state.rest.rewardAccounts dist).accounts = accounts
  obtain ⟨hmirPot, -, hmirActions, -⟩ := applyMir_frame (enterEpoch newEpoch accounts state.rest)
  have hmirRecorded := applyMir_recorded (enterEpoch newEpoch accounts state.rest)
  generalize (applyMirAtEpochBoundary (enterEpoch newEpoch accounts state.rest)).1 = rest
    at hmirPot hmirActions hmirRecorded ⊢
  have hadopted : ∀ kind, certGap kind (adoptStaged rest).toCertState =
      certGap kind state.rest.toCertState := by
    intro kind
    have hstate : recorded (enterEpoch newEpoch accounts state.rest).toCertState kind =
        recorded state.rest.toCertState kind := by
      cases kind <;> rfl
    unfold certGap
    rw [adoptStaged_recorded, hmirRecorded, hstate]
    change ((rest.depositPot.deposits kind).toNat : Int) - _ = _
    rw [hmirPot]
    rfl
  obtain ⟨-, -, hactions⟩ := retirePools_frame newEpoch (adoptStaged rest)
  have hretired := retirePools_certGap (adoptStaged rest) newEpoch
    ((hadopted .pool).trans hpools) kind
  exact ⟨hretired.trans (hadopted kind), hactions.trans hmirActions⟩

/-- **A boundary keeps a right pot right.** -/
theorem boundaryRun_matches (hmatches : PotMatches state.rest) :
    PotMatches (boundaryRun newEpoch state snapshots dist).final.rest := by
  have hgaps := potMatches_iff.mp hmatches
  rw [potMatches_iff]
  intro kind
  have hpools : certGap .pool state.rest.toCertState = 0 := by
    have hpool := hgaps .pool
    simpa [depositGap, proposed] using hpool
  obtain ⟨haccounted, hactions⟩ := accounted_gap newEpoch state snapshots dist hpools kind
  obtain ⟨hgovern, hrefunds, hfinal, -, -⟩ := boundaryRun_governed newEpoch state snapshots dist
  generalize boundaryRun newEpoch state snapshots dist = run at *
  have hgoverned := governBoundary_certGap newEpoch run.rotated (boundaryDrepActivity state)
    run.accounted kind
  rw [hgovern] at hgoverned
  -- the pending deposits fit in a word because the pot holds them
  have hword := state.rest.depositPot.proposalDeposits.toNat_lt
  have hproposals : (state.rest.depositPot.proposalDeposits.toNat : Int) =
      pendingDeposits state.rest.governanceActions := congrArg Nat.cast hmatches.proposal
  have hfits : pendingDeposits run.accounted.rest.governanceActions < 2 ^ 64 := by
    rw [hactions]
    omega
  obtain ⟨hreduced, -⟩ := governBoundary_reduction newEpoch run.rotated
    (boundaryDrepActivity state) hfits
  rw [hgovern, hrefunds, hactions] at hreduced
  have hgap := hgaps kind
  rw [hfinal]
  unfold depositGap at *
  cases kind with
  | proposal =>
    have hreturned := toNat_saturatingSub run.governed.rest.depositPot.proposalDeposits
      run.refunds.totalReduction
    rw [← haccounted, ← hgoverned] at hgap
    unfold certGap at *
    dsimp only [DepositPot.deposits, recorded, proposed, closeGovernance,
      DepositPot.returnProposalDeposit, DepositPot.returnDeposit, DepositPot.setDeposits] at *
    unfold pendingDeposits at *
    omega
  | key | pool | drep => exact (hgoverned.trans haccounted).symm ▸ hgap

end

/-! ## Runs -/

/-- What can happen to a ledger from Shelley on. -/
inductive LedgerAction (Evaluator : Type) where
  | earlyBlock (block : EarlyBlock)
  | scriptBlock (block : ScriptBlock) (evaluator : Option Evaluator)
  | boundary (newEpoch : EpochNo) (performance : KeyedMap PoolKeyHash UnitInterval)
      (snapshots : StakeSnapshots)
  | setParams (params : Option ProtocolParameters)

/-- What stays abstract in the rules of all eras. -/
structure LedgerEnv (More Evaluator : Type) where
  crypto : Crypto
  codec : Codec (TxContents ProtocolParameterUpdate More)
  checks : Checks ProtocolParameterUpdate EpochState More Evaluator
  early : EarlyRules More

section

variable {More Evaluator : Type} (env : LedgerEnv More Evaluator)

/-- The state after an action that is accepted. -/
def performAction (state : BoundaryState) : LedgerAction Evaluator → Result BoundaryState
  | .earlyBlock block => applyEarlyBlockValidated env.early state block
  | .scriptBlock block evaluator =>
    applyBlockValidated env.crypto env.codec (ledgerRules env.checks)
      (translateShelleyUtxo state) block evaluator
  | .boundary newEpoch performance snapshots => do
    return (← applyEpochBoundary newEpoch performance state snapshots).1
  | .setParams params => .ok { state with protocolParams := params }

/-- What an action does to the difference between pot and record; only blocks do something. -/
def actionMismatch (state : BoundaryState) (kind : DepositKind) : LedgerAction Evaluator → Int
  | .earlyBlock block => earlyBlockMismatch env.early state block kind
  | .scriptBlock block evaluator =>
    blockMismatch env.crypto env.codec env.checks (translateShelleyUtxo state) block evaluator
      kind
  | .boundary .. | .setParams _ => 0

variable {env}

/-- From a state with a right pot, the mismatch of an action is the difference it leaves. -/
theorem performAction_gap {state after : BoundaryState} {action : LedgerAction Evaluator}
    (hmatches : PotMatches state.rest) (hrun : performAction env state action = .ok after)
    (kind : DepositKind) :
    depositGap kind after.rest = actionMismatch env state kind action := by
  have hzero := potMatches_iff.mp hmatches kind
  cases action with
  | earlyBlock block =>
    have hgap := applyEarlyBlockValidated_gap hrun kind
    rwa [hzero, zero_add] at hgap
  | scriptBlock block evaluator =>
    have hgap := applyBlockValidated_gap hrun kind
    rwa [translateShelleyUtxo_gap, hzero, zero_add] at hgap
  | boundary newEpoch performance snapshots =>
    obtain ⟨result, happly, hreturn⟩ := bind_eq_ok.mp hrun
    obtain ⟨dist, hdist, hresult⟩ := bind_eq_ok.mp happly
    have hfinal := (congrArg Prod.fst (Except.ok.inj hresult)).trans (Except.ok.inj hreturn)
    rw [← hfinal]
    exact potMatches_iff.mp (boundaryRun_matches newEpoch state snapshots dist hmatches) kind
  | setParams params =>
    cases hrun
    exact hzero

variable (env) in
/-- The ledger as a state machine; an action is enabled when it is accepted. -/
def ledgerSystem (start : BoundaryState) :
    TransitionSystem BoundaryState (LedgerAction Evaluator) where
  start := start
  enabled state action := (performAction env state action).isOk
  step state action :=
    match performAction env state action with
    | .ok after => after
    | .error _ => state

/-- **Deposits on every run.**  From a state in which the pot holds the deposits on record, it
does so in every state of a run of accepted blocks, epoch boundaries and parameter changes exactly
when no block of the run has a mismatch: every refund of a certificate is the deposit on record,
no proposal replaces another, and no word saturates, or the differences of a block cancel.  Epoch
boundaries have none. -/
theorem potMatches_iff_guarded (start : BoundaryState) (hstart : PotMatches start.rest)
    (actions : List (LedgerAction Evaluator)) (hlegal : (ledgerSystem env start).Legal actions) :
    (∀ done, done <+: actions → PotMatches ((ledgerSystem env start).run done).rest) ↔
      ∀ done action, done ++ [action] <+: actions →
        ∀ kind, actionMismatch env ((ledgerSystem env start).run done) kind action = 0 := by
  refine (ledgerSystem env start).invariant_iff_guarded (fun _ => True)
    (fun state => PotMatches _)
    (fun state action => ∀ kind, actionMismatch env state kind action = 0) trivial hstart
    (fun _ _ _ _ => trivial) ?_ hlegal
  intro state action henabled _ hmatches
  cases hrun : performAction env state action with
  | error failure =>
    simp [ledgerSystem, hrun, Except.toBool] at henabled
  | ok after =>
    have hstep : (ledgerSystem env start).step state action = after := by
      simp [ledgerSystem, hrun]
    rw [hstep, potMatches_iff]
    refine forall_congr' fun kind => ?_
    rw [performAction_gap hmatches hrun kind]

end

/-! ## A deposit that changes between registration and refund -/

/-- Rules of an era that refuse nothing and propose nothing. -/
def openEra {Utxo Body : Type} (decode : Tx → Result (EarlyTx Body Unit)) :
    EraRules Utxo Body Unit where
  decode := decode
  check _ _ _ _ := .ok ()
  collectProposals _ state _ := .ok state.rest.other

/-- A credential registers with ten ada at hand, and leaves again with a refund of one or two. -/
def stakeKeyTx (tx : Tx) : EarlyTx ShelleyTxBody Unit where
  id := tx.id
  size := 0
  body :=
    if tx.id = 2 then ⟨[⟨1, 0⟩], [⟨[], 8000000⟩], 0, 100⟩
    else ⟨[⟨2, 0⟩], [⟨[], if tx.id = 3 then 9000000 else 10000000⟩], 0, 100⟩
  certificates := some [if tx.id = 2 then .accountRegistration (.addrKeyHash 1)
    else .accountUnregistration (.addrKeyHash 1)]
  withdrawals := none
  witnessBytes := none
  auxiliaryData := none
  more := ()

/-- An environment for the two transactions, in which nothing else is accepted. -/
def stakeKeyEnv : LedgerEnv Unit Unit where
  crypto := zeroCrypto
  codec := ⟨fun _ _ => reject .noInputs, fun _ => reject .noInputs, fun _ => reject .noInputs⟩
  checks :=
    { integrity := fun _ => .ok ()
      network := fun _ => .ok ()
      scripts := fun _ => .ok ()
      phase2 := fun _ => .ok ()
      voters := fun _ _ _ => .ok ()
      proposal := fun _ _ _ _ _ => .ok ()
      votes := fun _ _ _ => .ok ()
      collectProposals := fun _ _ state _ => .ok state.rest.other
      recordProducer := fun _ state => state.rest.other }
  early :=
    { shelley := openEra fun tx => .ok (stakeKeyTx tx)
      allegra := openEra fun _ => reject .noInputs
      mary := openEra fun _ => reject .noInputs
      recordProducer := fun _ state => state.rest.other }

/-- Ten ada and a key deposit of two. -/
def stakeKeyStart : BoundaryState :=
  { BoundaryState.new .shelley with
    protocolParams := some {}
    rest := { (BoundaryState.new .shelley).rest with
      other := { (BoundaryState.new .shelley).rest.other with
        shelleyUtxo := single ⟨1, 0⟩ ⟨[], 10000000⟩ } } }

/-- A block with one transaction. -/
def stakeKeyBlock (slot : SlotNo) (tx : TxId) : LedgerAction Unit :=
  .earlyBlock ⟨.shelley, ⟨0, 0, slot, slot⟩, none, none, [⟨tx, [], none, none, none⟩]⟩

/-- The key deposit is halved between the registration and the refund. -/
def halvedDeposit : List (LedgerAction Unit) :=
  [stakeKeyBlock 1 2, .setParams (some { keyDeposit := 1000000 }), stakeKeyBlock 2 3]

theorem stakeKeyStart_matches : PotMatches stakeKeyStart.rest := ⟨rfl, rfl, rfl, rfl⟩

theorem halvedDeposit_legal : (ledgerSystem stakeKeyEnv stakeKeyStart).Legal halvedDeposit := by
  apply TransitionSystem.legal_of_legalFrom
  refine ⟨?_, ?_, ?_, trivial⟩ <;> rfl

/-- The key deposit stays, and an epoch ends between the registration and the refund. -/
def keptDeposit : List (LedgerAction Unit) :=
  [stakeKeyBlock 1 2, .boundary 1 ∅ .new, stakeKeyBlock 2 4]

/-- The criterion along a run with both certificates and a boundary. -/
theorem keptDeposit_potMatches :
    (∀ done, done <+: keptDeposit →
        PotMatches ((ledgerSystem stakeKeyEnv stakeKeyStart).run done).rest) ∧
      ((ledgerSystem stakeKeyEnv stakeKeyStart).run
        [stakeKeyBlock 1 2]).rest.depositPot.keyDeposits = 2000000 := by
  have hlegal : (ledgerSystem stakeKeyEnv stakeKeyStart).Legal keptDeposit := by
    apply TransitionSystem.legal_of_legalFrom
    refine ⟨?_, ?_, ?_, trivial⟩ <;> rfl
  have hguarded : ({ ledgerSystem stakeKeyEnv stakeKeyStart with
      enabled := fun state action => ∀ kind, actionMismatch stakeKeyEnv state kind action = 0 }).Legal
        keptDeposit := by
    apply TransitionSystem.legal_of_legalFrom
    refine ⟨?_, ?_, ?_, trivial⟩ <;> intro kind <;> cases kind <;> rfl
  exact ⟨(potMatches_iff_guarded _ stakeKeyStart_matches keptDeposit hlegal).mpr hguarded, rfl⟩

/-- The refund is the key deposit of today: one ada of the two paid in stays in the pot, and no
credential is registered any more. -/
theorem halvedDeposit_leaves_gap :
    PotMatches stakeKeyStart.rest ∧
      (ledgerSystem stakeKeyEnv stakeKeyStart).Legal halvedDeposit ∧
      ((ledgerSystem stakeKeyEnv stakeKeyStart).run halvedDeposit).rest.depositPot.keyDeposits =
        1000000 ∧
      total (·.deposit.toNat)
        ((ledgerSystem stakeKeyEnv stakeKeyStart).run halvedDeposit).rest.stakeCredentials = 0 := by
  refine ⟨stakeKeyStart_matches, halvedDeposit_legal, rfl, rfl⟩

end Yggdrasil.Ledger
