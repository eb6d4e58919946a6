import Yggdrasil.Ledger.Certificates

/-!
# The rules behind a block

What a block does to the ledger state besides the UTxO set: the activation of the Shelley
genesis and of scheduled delegations before the block, certificates, withdrawals, votes,
proposals and donations of each transaction, and instantaneous rewards after the last one
(`state.rs`, `state/eras/`).

The checks that only accept or refuse stay abstract (`Checks`), and so do the parts of the state
that move no lovelace: parameter proposals, block counts and the enacted governance state
(`Other`).
-/

namespace Yggdrasil.Ledger

open Library

/-- The ledger state besides the UTxO set, the parameters and the tip. -/
structure LedgerRest (Update Other : Type) extends CertState where
  currentEpoch : EpochNo
  expectedNetworkId : Option UInt8
  governanceActions : GovernanceActions Update
  accounting : AccountingState
  utxosDonation : UInt64
  numDormantEpochs : UInt64
  instantaneousRewards : InstantaneousRewards
  stabilityWindow : Option UInt64
  slotsPerEpoch : UInt64
  /-- First Shelley slot and epoch, on a chain with a Byron prefix. -/
  byronShelleyTransition : Option (UInt64 × UInt64)
  pendingShelleyGenesisUtxo : Option (List (ShelleyTxIn × Bytes × UInt64))
  pendingShelleyGenesisStake : Option (List (StakeCredential × PoolKeyHash))
  pendingShelleyGenesisPools : Option (List PoolParams)
  pendingShelleyGenesisDelegs : Option (KeyedMap Hash28 GenesisDelegationState)
  other : Other

/-- The rest of a transaction body; `More` is what only abstract checks read. -/
structure TxContents (Update More : Type) where
  certificates : Option (List Certificate)
  votingProcedures : Option VotingProcedures
  proposalProcedures : Option (List (ProposalProcedure Update))
  currentTreasuryValue : Option UInt64
  more : More

section

variable {Update Other More Evaluator : Type}

/-- A ledger state with its registries. -/
abbrev FullState (Update Other : Type) := LedgerState (LedgerRest Update Other)

/-- A transaction with its certificates and proposals. -/
abbrev FullTx (Update More : Type) := DecodedTx (TxContents Update More)

abbrev TxContext (Update Other More Evaluator : Type) :=
  RuleContext (LedgerRest Update Other) (TxContents Update More) Evaluator

/-- The checks that stay abstract, and the updates of `Other`. -/
structure Checks (Update Other More Evaluator : Type) where
  integrity : TxContext Update Other More Evaluator → Result Unit
  network : TxContext Update Other More Evaluator → Result Unit
  scripts : TxContext Update Other More Evaluator → Result Unit
  phase2 : TxContext Update Other More Evaluator → Result Unit
  /-- The voters exist, after the certificates of the transaction. -/
  voters : TxContext Update Other More Evaluator → CertState → VotingProcedures → Result Unit
  /-- A proposal is well formed and may follow the actions before it. -/
  proposal : TxContext Update Other More Evaluator → CertState → GovernanceActions Update → Nat →
    ProposalProcedure Update → Result Unit
  /-- The actions voted on exist and the voters may vote on them. -/
  votes : TxContext Update Other More Evaluator → GovernanceActions Update → VotingProcedures →
    Result Unit
  /-- Parameter proposals of a block. -/
  collectProposals : ScriptEra → SlotNo → FullState Update Other → List (FullTx Update More) →
    Result Other
  recordProducer : ScriptBlock → FullState Update Other → Other

/-! ## Before the transactions -/

/-- Insert the funds of the Shelley genesis. -/
def insertGenesisUtxo (entries : List (ShelleyTxIn × Bytes × UInt64)) (utxo : MultiEraUtxo) :
    MultiEraUtxo :=
  KeyedMap.insertAll (entries.map fun entry => (entry.1, .shelley entry.2.1 entry.2.2)) utxo

/-- Delegate the stake of the Shelley genesis; a new credential has no deposit. -/
def insertGenesisStake (entries : List (StakeCredential × PoolKeyHash))
    (credentials : StakeCredentials) : StakeCredentials :=
  entries.foldl (fun credentials entry =>
    match credentials.lookup entry.1 with
    | some state => credentials.insert entry.1 { state with delegatedPool := some entry.2 }
    | none => credentials.insert entry.1 ⟨some entry.2, none, 0, none⟩) credentials

/-- `maybe_activate_pending_shelley_genesis` at a block of a later era than Byron. -/
def activatePendingShelleyGenesis (state : FullState Update Other) : FullState Update Other :=
  if state.currentEra = .byron then
    { state with
      multiEraUtxo := insertGenesisUtxo (state.rest.pendingShelleyGenesisUtxo.getD [])
        state.multiEraUtxo
      rest := { state.rest with
        poolState := (state.rest.pendingShelleyGenesisPools.getD []).foldl
          (fun pools params => pools.registerWithDeposit params 0) state.rest.poolState
        stakeCredentials := insertGenesisStake (state.rest.pendingShelleyGenesisStake.getD [])
          state.rest.stakeCredentials
        genDelegs := state.rest.pendingShelleyGenesisDelegs.getD state.rest.genDelegs
        pendingShelleyGenesisUtxo := none
        pendingShelleyGenesisStake := none
        pendingShelleyGenesisPools := none
        pendingShelleyGenesisDelegs := none } }
  else state

/-- Adopt the delegations whose slot has come, earlier slots first. -/
def applyScheduledGenesisDelegations (currentSlot : SlotNo) (rest : LedgerRest Update Other) :
    LedgerRest Update Other :=
  let ready := (rest.futureGenDelegs.entries.filter fun entry => entry.1.1 ≤ currentSlot)
    |>.insertionSort fun a b => a.1.1 ≤ b.1.1
  { rest with
    genDelegs := ready.foldl (fun delegs entry => delegs.insert entry.1.2 entry.2) rest.genDelegs
    futureGenDelegs := KeyedMap.keep (fun key _ => currentSlot < key.1) rest.futureGenDelegs }

/-- The delegates of the genesis keys, as the witness rules read them. -/
def genesisDelegates (delegs : KeyedMap Hash28 GenesisDelegationState) :
    KeyedMap Hash28 Hash28 where
  entries := delegs.entries.map fun entry => ⟨entry.1, entry.2.delegate⟩
  nodupKeys := by
    have hkeys : (delegs.entries.map fun entry =>
        (⟨entry.1, entry.2.delegate⟩ : Sigma fun _ : Hash28 => Hash28)).keys =
          delegs.entries.keys := by
      simp [List.keys, List.map_map, Function.comp_def]
    rw [List.NodupKeys, hkeys]
    exact delegs.nodupKeys

/-- What happens before the transactions of a block. -/
def prepareBlock (slot : SlotNo) (state : FullState Update Other) : FullState Update Other :=
  let activated := activatePendingShelleyGenesis state
  let rest := applyScheduledGenesisDelegations slot activated.rest
  { activated with rest := rest, genDelegs := genesisDelegates rest.genDelegs }

/-! ## One transaction -/

/-- The context of the certificate rule; the era is the one before the block. -/
def certificateValidationContext (state : FullState Update Other) : CertificateValidationContext :=
  let isConway := state.currentEra = .conway
  let pv := state.protocolParams.bind (·.protocolVersion)
  { keyDeposit := (state.protocolParams.map (·.keyDeposit)).getD 0
    poolDeposit := (state.protocolParams.map (·.poolDeposit)).getD 0
    minPoolCost := (state.protocolParams.map (·.minPoolCost)).getD 0
    eMax := (state.protocolParams.map (·.eMax)).getD 18446744073709551615
    currentEpoch := state.rest.currentEpoch
    expectedNetworkId := state.rest.expectedNetworkId
    drepDeposit := state.protocolParams.bind (·.drepDeposit)
    isConway := isConway
    bootstrapPhase := isConway && conwayBootstrapPhase pv
    postPv10 := isConway && conwayPostPv10 pv }

variable (checks : Checks Update Other More Evaluator)
  (context : TxContext Update Other More Evaluator) (rest : LedgerRest Update Other)

/-- The first slot of an epoch, after a Byron prefix if there is one. -/
def epochFirstSlot (epoch : EpochNo) : SlotNo :=
  let fixedLength := saturatingMul epoch rest.slotsPerEpoch
  match rest.byronShelleyTransition with
  | some (boundarySlot, firstShelleyEpoch) =>
    if firstShelleyEpoch ≤ epoch then
      boundarySlot + saturatingMul (epoch - firstShelleyEpoch) rest.slotsPerEpoch
    else fixedLength
  | none => fixedLength

/-- The context of instantaneous rewards; none without a stability window. -/
def mirValidationContext (slot : SlotNo) (alonzoMirTransfers : Bool) :
    Option MirValidationContext :=
  rest.stabilityWindow.map fun window =>
    { currentSlot := slot
      mirDeadlineSlot :=
        if rest.slotsPerEpoch = 0 then none
        else some (saturatingSub (epochFirstSlot rest (rest.currentEpoch + 1)) window)
      alonzoMirTransfers := alonzoMirTransfers
      accounting := rest.accounting
      instantaneousRewards := rest.instantaneousRewards }

/-- What the certificate rule reads in a block: the actions are those before the block. -/
def certEnv : CertEnv Update where
  context := certificateValidationContext context.state
  governanceActions := context.state.rest.governanceActions
  currentSlot := context.slot
  txIndex := .ofNat context.txIndex
  stabilityWindow := context.state.rest.stabilityWindow
  mirContext :=
    if context.era = .conway then none
    else mirValidationContext context.state.rest context.slot true

/-- What the certificate rule reads when it is only simulated for the governance checks. -/
def simulationEnv : CertEnv Update where
  context := certificateValidationContext context.state
  governanceActions := context.rest.governanceActions
  currentSlot := 0
  txIndex := 0
  stabilityWindow := none
  mirContext := none

def validateConwayCurrentTreasuryValue (submitted : Option UInt64) (actual : UInt64) :
    Result Unit :=
  submitted.forM fun value =>
    rejectIf (value ≠ actual) (.currentTreasuryValueIncorrect value actual)

/-- After the bootstrap phase only key holders who delegate their votes may withdraw. -/
def validateWithdrawalsDelegated (withdrawals : Option (List (RewardAccount × UInt64)))
    (credentials : StakeCredentials) (bootstrapPhase : Bool) : Result Unit :=
  if bootstrapPhase then .ok ()
  else (withdrawals.getD []).forM fun withdrawal =>
    match withdrawal.1.credential with
    | .scriptHash _ => .ok ()
    | .addrKeyHash hash =>
      rejectIf ((credentials.lookup (.addrKeyHash hash)).bind (·.delegatedDrep)).isNone
        (.withdrawalNotDelegatedToDRep hash)

/-- Votes and proposals: checked against the state after the certificates, then recorded. -/
def governVotesAndProposals : Result (LedgerRest Update Other) := do
  let contents := context.tx.body.extra
  let bootstrapPhase := (certificateValidationContext context.state).bootstrapPhase
  let leaving := collectConwayUnregisteredDrepVoters (contents.certificates.getD [])
  let (simulated, _) ← applyCertificatesAndWithdrawals (simulationEnv context)
    { rest.toCertState with futureGenDelegs := ∅ } contents.certificates none
  contents.votingProcedures.forM (checks.voters context simulated)
  let params := context.state.protocolParams
  let actions ← stageProposals (checks.proposal context simulated) context.tx.id
    context.state.rest.currentEpoch (params.bind (·.govActionLifetime)) rest.governanceActions
    (contents.proposalProcedures.getD [])
  contents.votingProcedures.forM (checks.votes context actions)
  let voting := contents.votingProcedures.getD ∅
  let epoch := activityEpoch context.state.rest.currentEpoch rest.numDormantEpochs bootstrapPhase
  return { rest with
    governanceActions := removeConwayDrepVotes leaving (recordVotes voting actions)
    drepState := touchVotingDreps voting epoch rest.drepState }

/-- Whether a transaction has anything to do with governance. -/
def governs (contents : TxContents Update More) : Bool :=
  contents.votingProcedures.isSome || contents.proposalProcedures.isSome ||
    !(collectConwayUnregisteredDrepVoters (contents.certificates.getD [])).isEmpty

def proposalDeposits (contents : TxContents Update More) : UInt64 :=
  ((contents.proposalProcedures.getD []).map (·.deposit)).foldl saturatingAdd 0

/-- What a Conway transaction checks and records before its certificates. -/
def conwayGovernance : Result (LedgerRest Update Other) := do
  let contents := context.tx.body.extra
  validateConwayCurrentTreasuryValue contents.currentTreasuryValue
    context.state.rest.accounting.treasury
  validateWithdrawalsDelegated context.tx.body.withdrawals context.rest.stakeCredentials
    (certificateValidationContext context.state).bootstrapPhase
  let (dreps, dormant) := updateDormantDrepExpiries
    (contents.proposalProcedures.any (!·.isEmpty)) context.state.rest.currentEpoch
    ((context.state.protocolParams.bind (·.drepActivity)).getD 0) context.rest.drepState
    context.rest.numDormantEpochs
  let awake := { context.rest with drepState := dreps, numDormantEpochs := dormant }
  if governs contents then governVotesAndProposals checks context awake else .ok awake

/-- What a Conway transaction adds after its certificates: activity, proposal deposits and the
donation.  The source counts the donation after the transition, which may still refuse the
transaction; nothing in between reads it. -/
def conwayDeposits (adjustments : Adjustments) : LedgerRest Update Other × Adjustments :=
  let contents := context.tx.body.extra
  let epoch := activityEpoch context.state.rest.currentEpoch rest.numDormantEpochs
    (certificateValidationContext context.state).bootstrapPhase
  ({ rest with
      drepState := touchDrepActivityForCerts (contents.certificates.getD []) epoch rest.drepState
      depositPot := rest.depositPot.addProposalDeposit (proposalDeposits contents)
      utxosDonation := saturatingAdd rest.utxosDonation
        (context.tx.body.treasuryDonation.getD 0) },
    { adjustments with
      totalDeposits := saturatingAdd adjustments.totalDeposits (proposalDeposits contents) })

/-- The rules before the certificates of a transaction. -/
def beforeCertificates : Result (LedgerRest Update Other) :=
  if context.era = .conway then conwayGovernance checks context else .ok context.rest

variable {checks context} in
/-- Before the certificates only the activity of representatives and the pending actions change. -/
theorem beforeCertificates_frame {governed : LedgerRest Update Other}
    (hrun : beforeCertificates checks context = .ok governed) :
    ∃ dreps dormant actions, governed = { context.rest with
      drepState := dreps, numDormantEpochs := dormant, governanceActions := actions } := by
  unfold beforeCertificates at hrun
  split at hrun
  · unfold conwayGovernance at hrun
    simp only [bind_eq_ok] at hrun
    obtain ⟨_, _, _, _, hgovern⟩ := hrun
    split at hgovern
    · unfold governVotesAndProposals at hgovern
      simp only [bind_eq_ok] at hgovern
      obtain ⟨_, _, _, _, _, _, _, _, hreturn⟩ := hgovern
      cases hreturn
      exact ⟨_, _, _, rfl⟩
    · cases hgovern
      exact ⟨_, _, _, rfl⟩
  · cases hrun
    exact ⟨_, _, _, rfl⟩

/-- The effects of a transaction whose scripts succeed. -/
def txEffects : Result (LedgerRest Update Other × Adjustments) := do
  let governed ← beforeCertificates checks context
  let (certified, adjustments) ← applyCertificatesAndWithdrawals (certEnv context)
    governed.toCertState context.tx.body.extra.certificates context.tx.body.withdrawals
  let rest := { governed with toCertState := certified }
  return if context.era = .conway then conwayDeposits context rest adjustments
    else (rest, adjustments)

/-! ## After the transactions -/

/-- Parameter proposals and instantaneous rewards of the transactions that are valid. -/
def finishBlock (era : ScriptEra) (slot : SlotNo) (state : FullState Update Other)
    (txs : List (FullTx Update More)) :
    Result (LedgerRest Update Other) :=
  match era with
  | .conway => .ok state.rest
  | _ => do
    let other ← checks.collectProposals era slot state txs
    return { state.rest with
      other := other
      instantaneousRewards := (txs.filter (·.txIsValid)).foldl (fun rewards tx =>
        accumulateMirFromCerts rewards (tx.body.extra.certificates.getD []))
        state.rest.instantaneousRewards }

def ledgerRules : Rules (LedgerRest Update Other) (TxContents Update More) Evaluator where
  prepare _ slot state := prepareBlock slot state
  integrity := checks.integrity
  network := checks.network
  scripts := checks.scripts
  phase2 := checks.phase2
  effects := txEffects checks
  finish := finishBlock checks
  recordProducer block state := { state.rest with other := checks.recordProducer block state }

end

end Yggdrasil.Ledger
