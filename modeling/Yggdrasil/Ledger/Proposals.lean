import Yggdrasil.Ledger.EpochBoundary

/-!
# Governance proposals

The check of a proposal and its staging among the pending actions (`validate_conway_proposals` in
`state.rs`): bootstrap phase, well-formed parameter updates, lineage, versions, deposit, accounts,
guardrails and committee terms.

Maps are gone through in the order of their entries.  Errors that carry the whole proposal or the
action before it are modelled without it.
-/

namespace Yggdrasil.Ledger

open Library

abbrev Proposal := ProposalProcedure ProtocolParameterUpdate

/-- The actions that may be proposed in the bootstrap phase. -/
def conwayBootstrapAction : Action → Bool
  | .parameterChange .. | .hardForkInitiation .. | .infoAction => true
  | _ => false

/-- The next minor version, or the next major one. -/
def conwayPvCanFollow (previous new : UInt64 × UInt64) : Bool :=
  (previous.2 ≠ 18446744073709551615 ∧ new = (previous.1, previous.2 + 1)) ∨
    (previous.1 ≠ 18446744073709551615 ∧ new = (previous.1 + 1, 0))

def conwayUnitIntervalWellFormed (value : UnitInterval) : Bool :=
  value.denominator ≠ 0 ∧ value.numerator ≤ value.denominator

def PoolVotingThresholds.values (thresholds : PoolVotingThresholds) : List UnitInterval :=
  [thresholds.motionNoConfidence, thresholds.committeeNormal, thresholds.committeeNoConfidence,
    thresholds.hardForkInitiation, thresholds.ppSecurityGroup]

def DRepVotingThresholds.values (thresholds : DRepVotingThresholds) : List UnitInterval :=
  [thresholds.motionNoConfidence, thresholds.committeeNormal, thresholds.committeeNoConfidence,
    thresholds.updateToConstitution, thresholds.hardForkInitiation, thresholds.ppNetworkGroup,
    thresholds.ppEconomicGroup, thresholds.ppTechnicalGroup, thresholds.ppGovGroup,
    thresholds.treasuryWithdrawal]

/-- The fractions of an update. -/
def ProtocolParameterUpdate.fractions (update : ProtocolParameterUpdate) : List UnitInterval :=
  [update.a0, update.rho, update.tau, update.priceMem, update.priceStep].reduceOption ++
    (update.poolVotingThresholds.map (·.values)).getD [] ++
    (update.drepVotingThresholds.map (·.values)).getD []

/-- A field that must not be zero is. -/
def ProtocolParameterUpdate.hasForbiddenZero (update : ProtocolParameterUpdate) : Bool :=
  update.maxBlockBodySize = some 0 ∨ update.maxTxSize = some 0 ∨
    update.maxBlockHeaderSize = some 0 ∨ update.maxValSize = some 0 ∨
    update.collateralPercentage = some 0 ∨ update.committeeTermLimit = some 0 ∨
    update.govActionLifetime = some 0 ∨ update.poolDeposit = some 0 ∨
    update.govActionDeposit = some 0 ∨ update.drepDeposit = some 0

def conwayProtocolParamUpdateWellFormed (update : ProtocolParameterUpdate)
    (protocolVersion : Option (UInt64 × UInt64)) : Bool :=
  update.fractions.all conwayUnitIntervalWellFormed &&
    update.protocolVersion.isNone && !update.hasForbiddenZero &&
    (conwayBootstrapPhase protocolVersion || update.coinsPerUtxoByte ≠ some 0) &&
    (!conwayPostPv10 protocolVersion || update.nOpt ≠ some 0)

def conwayProposalPrevActionId (action : Action) : Option GovActionId :=
  (govActionPrevId action).join

/-- What a proposal is checked against, next to the pending actions. -/
structure ProposalContext where
  txId : TxId
  currentEpoch : EpochNo
  stakeCredentials : StakeCredentials
  protocolVersion : Option (UInt64 × UInt64)
  govActionDeposit : Option UInt64
  expectedNetworkId : Option UInt8
  enact : EnactState
  govActionLifetime : Option UInt64

section

variable (context : ProposalContext)

/-- A change of parameters changes something, and to values that make sense. -/
def checkParameterChange (action : Action) : Result Unit :=
  match action with
  | .parameterChange _ update _ => do
    rejectIf (update = {}) .malformedProposal
    rejectIf (¬ conwayProtocolParamUpdateWellFormed update context.protocolVersion)
      .malformedProposal
  | _ => .ok ()

/-- The action before: the root of the purpose or a pending action of the purpose; nothing only
where there is no root.  An action of the same transaction has to come first. -/
def checkLineage (actions : Actions) (index : Nat) (action : Action) : Result Unit :=
  let purpose := conwayGovActionPurpose action
  match conwayProposalPrevActionId action with
  | some prevActionId => do
    rejectIf (prevActionId.transactionId = context.txId ∧
      index ≤ prevActionId.govActionIndex.toNat) .invalidPrevGovActionId
    if context.enact.enactedRoot purpose = some prevActionId then .ok ()
    else
      rejectIf ((actions.lookup prevActionId).all fun prevAction =>
        conwayGovActionPurpose prevAction.proposal.govAction ≠ purpose) .invalidPrevGovActionId
  | none =>
    match purpose with
    | .parameterChange | .hardFork | .committee | .constitution =>
      rejectIf (context.enact.enactedRoot purpose).isSome .invalidPrevGovActionId
    | .treasuryWithdrawals | .info => .ok ()

/-- The version that a hard fork has to follow.  A jump of more than one major version is compared
with the current one. -/
def conwayExpectedPreviousHardForkVersion (actions : Actions) (prevActionId : Option GovActionId)
    (supplied : UInt64 × UInt64) : Option (UInt64 × UInt64) :=
  context.protocolVersion.bind fun current =>
    if saturatingAdd current.1 1 < supplied.1 then some current
    else
      match prevActionId with
      | some actionId => (actions.lookup actionId).bind fun state =>
        match state.proposal.govAction with
        | .hardForkInitiation _ version => some version
        | _ => none
      | none => some current

/-- Versions go up one by one. -/
def checkHardForkVersion (actions : Actions) (action : Action) : Result Unit :=
  match action with
  | .hardForkInitiation prevActionId supplied =>
    match conwayExpectedPreviousHardForkVersion context actions prevActionId supplied with
    | some expected =>
      rejectIf (¬ conwayPvCanFollow expected supplied) (.proposalCantFollow supplied expected)
    | none =>
      match prevActionId with
      | some actionId =>
        if context.enact.prevHardFork = some actionId then
          match context.protocolVersion with
          | none => reject .missingProtocolVersionForHardFork
          | some expected => rejectIf (¬ conwayPvCanFollow expected supplied)
              (.proposalCantFollow supplied expected)
        else .ok ()
      | none => reject .missingProtocolVersionForHardFork
  | _ => .ok ()

/-- The deposit, and the account that gets it back. -/
def checkDeposit (proposal : Proposal) : Result Unit := do
  context.govActionDeposit.forM fun expected =>
    rejectIf (proposal.deposit ≠ expected) (.proposalDepositIncorrect proposal.deposit expected)
  match RewardAccount.fromBytes proposal.rewardAccount with
  | none => reject (.invalidRewardAccountBytes proposal.rewardAccount)
  | some account => do
    context.expectedNetworkId.forM fun expected =>
      rejectIf (account.network ≠ expected) (.proposalProcedureNetworkIdMismatch account expected)
    rejectIf (¬ conwayBootstrapPhase context.protocolVersion ∧
      ¬ context.stakeCredentials.isRegistered account.credential)
      (.proposalReturnAccountDoesNotExist account)

/-- The guardrails script is that of the constitution. -/
def checkGuardrails (proposalHash : Option Hash28) : Result Unit :=
  rejectIf (proposalHash ≠ context.enact.constitution.guardrailsScriptHash)
    (.invalidGuardrailsScriptHash proposalHash context.enact.constitution.guardrailsScriptHash)

/-- Accounts, amounts and guardrails of withdrawals from the treasury. -/
def checkTreasuryWithdrawals (withdrawals : KeyedMap RewardAccount UInt64)
    (guardrailsScriptHash : Option Hash28) : Result Unit := do
  withdrawals.keys.forM fun account => context.expectedNetworkId.forM fun expected =>
    rejectIf (account.network ≠ expected) (.treasuryWithdrawalsNetworkIdMismatch account expected)
  let unregistered := withdrawals.keys.filter fun account =>
    !context.stakeCredentials.isRegistered account.credential
  rejectIf (¬ conwayBootstrapPhase context.protocolVersion ∧ unregistered ≠ [])
    (.treasuryWithdrawalReturnAccountsDoNotExist unregistered)
  rejectIf (¬ conwayBootstrapPhase context.protocolVersion ∧
    withdrawals.entries.all fun entry => entry.2 = 0) .zeroTreasuryWithdrawals
  checkGuardrails context guardrailsScriptHash

/-- The quorum, the members and the terms of a new committee. -/
def checkCommitteeUpdate (membersToRemove : List StakeCredential)
    (membersToAdd : KeyedMap StakeCredential UInt64) (quorum : UnitInterval) : Result Unit := do
  rejectIf (quorum.denominator = 0 ∨ quorum.denominator < quorum.numerator)
    (.wellFormedUnitIntervalRatification quorum.numerator quorum.denominator)
  let conflicting := membersToAdd.keys.filter (· ∈ membersToRemove)
  rejectIf (conflicting ≠ []) (.conflictingCommitteeUpdate conflicting)
  let expired := (KeyedMap.pairs membersToAdd).filter fun member => member.2 ≤ context.currentEpoch
  rejectIf (expired ≠ []) (.expirationEpochTooSmall expired)

/-- The checks of one kind of action. -/
def checkContents (action : Action) : Result Unit :=
  match action with
  | .treasuryWithdrawals withdrawals guardrailsScriptHash =>
    checkTreasuryWithdrawals context withdrawals guardrailsScriptHash
  | .parameterChange _ _ guardrailsScriptHash => checkGuardrails context guardrailsScriptHash
  | .updateCommittee _ membersToRemove membersToAdd quorum =>
    checkCommitteeUpdate context membersToRemove membersToAdd quorum
  | _ => .ok ()

def checkProposal (actions : Actions) (index : Nat) (proposal : Proposal) : Result Unit := do
  rejectIf (conwayBootstrapPhase context.protocolVersion ∧
    ¬ conwayBootstrapAction proposal.govAction) .disallowedProposalDuringBootstrap
  checkParameterChange context proposal.govAction
  checkLineage context actions index proposal.govAction
  checkHardForkVersion context actions proposal.govAction
  checkDeposit context proposal
  checkContents context proposal.govAction

/-- Check and stage the proposals of a transaction one after the other. -/
def validateConwayProposals (proposals : List Proposal) (actions : Actions) : Result Actions :=
  stageProposals (checkProposal context) context.txId context.currentEpoch
    context.govActionLifetime actions proposals

end

end Yggdrasil.Ledger
