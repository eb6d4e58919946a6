import Yggdrasil.Ledger.LedgerRules
import Yggdrasil.Library.FallibleLoop

/-!
# What certificates move

Every certificate pays at most one deposit into the pot or one refund out of it.  `movementOf`
reads which one off the certificate and the state before it, and `applyCertificate_follows` says
what the certificate rule does in these terms: to the pot and the totals of the transaction, to
the deposits on record in the registries, and to the reward balances.
-/

namespace Yggdrasil.Ledger

open Library KeyedMap

/-! ## Deposits on record and balances -/

/-- The deposits of one kind that the registries record; proposals are recorded elsewhere. -/
def recorded (state : CertState) : DepositKind → Nat
  | .key => total (·.deposit.toNat) state.stakeCredentials
  | .pool => total (·.deposit.toNat) state.poolState.entries
  | .drep => total (·.deposit.toNat) state.drepState
  | .proposal => 0

def keyDepositOnRecord (state : CertState) (credential : StakeCredential) : UInt64 :=
  ((state.stakeCredentials.lookup credential).map (·.deposit)).getD 0

def drepDepositOnRecord (state : CertState) (drep : DRep) : UInt64 :=
  ((state.drepState.lookup drep).map (·.deposit)).getD 0

def totalBalance (accounts : RewardAccounts) : Nat := total (·.balance.toNat) accounts

/-- The pot and the totals of a transaction in the middle of its certificates. -/
structure Books where
  depositPot : DepositPot
  totalDeposits : UInt64
  totalRefunds : UInt64

def CertProgress.books (progress : CertProgress) : Books :=
  ⟨progress.depositPot, progress.totalDeposits, progress.totalRefunds⟩

/-- What a certificate pays in or out; a refund comes with the deposit on record. -/
inductive Movement where
  | none
  | deposit (kind : DepositKind) (amount : UInt64)
  | refund (kind : DepositKind) (amount onRecord : UInt64)
deriving DecidableEq, Repr

namespace Movement

def perform : Movement → Books → Books
  | none, books => books
  | deposit kind amount, books =>
    { books with
      depositPot := books.depositPot.addDeposit kind amount
      totalDeposits := saturatingAdd books.totalDeposits amount }
  | refund kind amount _, books =>
    { books with
      depositPot := books.depositPot.returnDeposit kind amount
      totalRefunds := saturatingAdd books.totalRefunds amount }

/-- What goes on record. -/
def paid (other : DepositKind) : Movement → Nat
  | deposit kind amount => if other = kind then amount.toNat else 0
  | _ => 0

/-- What goes off the record. -/
def released (other : DepositKind) : Movement → Nat
  | refund kind _ onRecord => if other = kind then onRecord.toNat else 0
  | _ => 0

end Movement

/-- What a step from one state to the next did, as far as lovelace is concerned. -/
structure Follows (movement : Movement) (progress next : CertProgress) : Prop where
  books : next.books = movement.perform progress.books
  record : ∀ kind, recorded next.toCertState kind + movement.released kind =
    recorded progress.toCertState kind + movement.paid kind
  balances : totalBalance progress.rewardAccounts < 2 ^ 64 →
    totalBalance next.rewardAccounts = totalBalance progress.rewardAccounts

namespace Follows

/-- A second step that moves nothing changes nothing about the first. -/
theorem then_none {movement : Movement} {first middle last : CertProgress}
    (hfirst : Follows movement first middle) (hsecond : Follows .none middle last) :
    Follows movement first last where
  books := hsecond.books.trans hfirst.books
  record kind := by
    have hrecord := hsecond.record kind
    have hbefore := hfirst.record kind
    simp only [Movement.released, Movement.paid] at hrecord
    omega
  balances hsum := by
    have hmiddle := hfirst.balances hsum
    rw [hsecond.balances (by omega), hmiddle]

theorem of_same {progress next : CertProgress} (hbooks : next.books = progress.books)
    (hrecord : ∀ kind, recorded next.toCertState kind = recorded progress.toCertState kind)
    (hbalance : totalBalance next.rewardAccounts = totalBalance progress.rewardAccounts) :
    Follows .none progress next where
  books := hbooks
  record kind := by simp [Movement.released, Movement.paid, hrecord kind]
  balances _ := hbalance

end Follows

/-! ## Withdrawals -/

variable {accounts : RewardAccounts}

theorem withdraw_total {next : RewardAccounts} {withdrawal : RewardAccount × UInt64}
    (hrun : withdraw accounts withdrawal = .ok next) :
    totalBalance next + withdrawal.2.toNat = totalBalance accounts := by
  unfold withdraw at hrun
  split at hrun
  · cases hrun
  · rename_i account hfound
    simp only [bind_eq_ok, rejectIf_eq_ok, not_not] at hrun
    obtain ⟨_, _, _, hexact, hreturn⟩ := hrun
    cases hreturn
    have hmodify := total_modify (·.balance.toNat) accounts account
      (fun state => { state with balance := withdrawal.2 - withdrawal.2 })
    -- the account holds what is withdrawn, and nothing is left
    have hbefore : amountAt (·.balance.toNat) accounts account = withdrawal.2.toNat := by
      rw [hexact]
      unfold amountAt
      cases accounts.lookup account with
      | none | some state => rfl
    have hafter : amountAt (fun state =>
        (withdrawal.2 - withdrawal.2).toNat) accounts account = 0 := by
      unfold amountAt
      cases accounts.lookup account with
      | none => rfl
      | some state => simp
    dsimp only at hmodify
    rw [← hexact]
    unfold totalBalance
    omega

theorem withdrawals_total {final : RewardAccounts} {withdrawals : List (RewardAccount × UInt64)}
    (hrun : withdrawals.foldlM withdraw accounts = .ok final) :
    totalBalance final + (withdrawals.map (·.2.toNat)).sum = totalBalance accounts := by
  induction withdrawals generalizing accounts with
  | nil =>
    cases hrun
    rfl
  | cons withdrawal rest ih =>
    obtain ⟨next, hnext, hrest⟩ := foldlM_cons_eq_ok.mp hrun
    have hfirst := withdraw_total hnext
    have hlater := ih hrest
    rw [List.map_cons, List.sum_cons]
    omega

/-! ## Stake credentials -/

theorem isRegistered_iff {credentials : StakeCredentials} {credential : StakeCredential} :
    credentials.isRegistered credential = true ↔ credential ∈ credentials := by
  unfold StakeCredentials.isRegistered
  rw [AList.lookup_isSome]

theorem totalBalance_registerRewardAccount (credential : StakeCredential)
    (expectedNetworkId : Option UInt8) (accounts : RewardAccounts) :
    totalBalance (registerRewardAccountForCredential credential expectedNetworkId accounts) =
      totalBalance accounts := by
  unfold registerRewardAccountForCredential
  cases expectedNetworkId with
  | none => rfl
  | some network =>
    dsimp only
    split
    · rfl
    · rename_i hnone
      -- no account of the credential: the key is fresh
      have hfresh : (⟨network, credential⟩ : RewardAccount) ∉ accounts := by
        intro hmem
        apply hnone
        have hkey : network ∈ accounts.networksOf credential := by
          refine List.mem_map.mpr ⟨⟨network, credential⟩, ?_, rfl⟩
          exact List.mem_filter.mpr ⟨AList.mem_keys.mp hmem, by simp⟩
        unfold RewardAccounts.findAccountByCredential
        rw [Option.isSome_map, Option.isSome_iff_ne_none]
        intro hmin
        rw [List.min?_eq_none_iff] at hmin
        rw [hmin] at hkey
        cases hkey
      unfold totalBalance
      rw [total_insert_of_notMem _ _ hfresh]
      rfl

section

variable {Update : Type} {env : CertEnv Update} {credential : StakeCredential}
  {progress next : CertProgress}

variable {deposit : UInt64} {certIndex : Nat}

theorem registerAccount_follows
    (hrun : registerAccount env credential deposit certIndex progress = .ok next) :
    Follows (.deposit .key deposit) progress next := by
  obtain ⟨credentials, hregister, hreturn⟩ := bind_eq_ok.mp hrun
  cases hreturn
  unfold registerStakeCredential at hregister
  split at hregister
  · cases hregister
  · rename_i hnew
    cases hregister
    rw [isRegistered_iff] at hnew
    refine ⟨rfl, fun kind => ?_, fun _ => totalBalance_registerRewardAccount _ _ _⟩
    cases kind with
    | key =>
      exact total_insert_of_notMem
        (fun state => state.deposit.toNat) _ hnew
    | pool => rfl
    | drep | proposal => rfl

/-- In Conway the certificate registers, or it is refused. -/
theorem registerAccountWithDeposit_follows (hconway : env.context.isConway = true)
    (hrun : registerAccountWithDeposit env credential deposit certIndex progress = .ok next) :
    Follows (.deposit .key deposit) progress next := by
  unfold registerAccountWithDeposit at hrun
  simp only [bind_eq_ok, rejectIf_eq_ok] at hrun
  obtain ⟨_, _, _, hnew, hrest⟩ := hrun
  have hfree : progress.stakeCredentials.isRegistered credential = false := by
    cases hregistered : progress.stakeCredentials.isRegistered credential with
    | false => rfl
    | true => exact absurd ⟨hconway, hregistered⟩ hnew
  rw [hfree] at hrest
  exact registerAccount_follows hrest

/-- The accounts of a credential with wrapped balance zero are empty when nothing wraps. -/
theorem totalBalance_keep_others {accounts : RewardAccounts}
    (hsum : totalBalance accounts < 2 ^ 64) (hempty : accounts.balanceOf credential = 0) :
    totalBalance (keep (fun account _ => account.credential ≠ credential) accounts) =
      totalBalance accounts := by
  have hsplit := total_keep (fun state => state.balance.toNat)
    (fun account _ => decide (account.credential ≠ credential)) accounts
  have hown : total (fun state => state.balance.toNat)
      (keep (fun account _ => !decide (account.credential ≠ credential)) accounts) %
        2 ^ 64 = 0 := by
    have hwords := toNat_foldl_add ((accounts.entries.filter fun entry =>
      entry.1.credential = credential).map fun entry => entry.2.balance) 0
    unfold RewardAccounts.balanceOf at hempty
    rw [List.foldl_map, hempty] at hwords
    unfold total keep
    simpa [Function.comp_def] using hwords.symm
  unfold totalBalance at hsum ⊢
  omega

variable {unregistered : CertProgress}

theorem unregister_follows (amount : UInt64)
    (hrun : unregisterStakeCredential credential progress = .ok unregistered) :
    Follows (.refund .key amount (keyDepositOnRecord progress.toCertState credential)) progress
      (unregistered.payRefund .key amount) := by
  unfold unregisterStakeCredential at hrun
  simp only [bind_eq_ok, rejectIf_eq_ok, not_not] at hrun
  obtain ⟨_, _, _, hempty, hreturn⟩ := hrun
  cases hreturn
  refine ⟨rfl, fun kind => ?_, fun hsum => totalBalance_keep_others hsum hempty⟩
  cases kind with
  | key =>
    have herase := total_erase (fun state =>
      state.deposit.toNat) progress.stakeCredentials credential
    have hamount : amountAt (fun state => state.deposit.toNat)
        progress.stakeCredentials credential =
          (keyDepositOnRecord progress.toCertState credential).toNat := by
      unfold amountAt keyDepositOnRecord
      cases progress.stakeCredentials.lookup credential with
      | none | some state => rfl
    rw [hamount] at herase
    exact herase
  | pool => rfl
  | drep | proposal => rfl

theorem delegateStakeCredential_follows {pool : PoolKeyHash}
    (hrun : delegateStakeCredential credential pool progress = .ok next) :
    Follows .none progress next := by
  unfold delegateStakeCredential at hrun
  simp only [bind_eq_ok] at hrun
  obtain ⟨_, _, _, _, hreturn⟩ := hrun
  cases hreturn
  refine Follows.of_same rfl (fun kind => ?_) ?_
  · cases kind with
    | key =>
      dsimp only [recorded]
      apply total_modify_of_eq
      intro state
      rfl
    | pool => rfl
    | drep | proposal => rfl
  · dsimp only [totalBalance]
    apply total_mapEntries_of_eq
    intro account state
    split <;> rfl

theorem delegateDrep_follows {drep : DRep} {bootstrapPhase : Bool}
    (hrun : delegateDrep credential drep bootstrapPhase progress = .ok next) :
    Follows .none progress next := by
  unfold delegateDrep at hrun
  simp only [bind_eq_ok] at hrun
  obtain ⟨_, _, _, _, hreturn⟩ := hrun
  cases hreturn
  refine Follows.of_same rfl (fun kind => ?_) rfl
  cases kind with
  | key =>
    dsimp only [recorded]
    apply total_modify_of_eq
    intro state
    rfl
  | pool => rfl
  | drep | proposal => rfl

/-! ## Committee and representatives -/

theorem setCommitteeAuthorization_follows {authorization : CommitteeAuthorization}
    (hrun : setCommitteeAuthorization env credential authorization progress = .ok next) :
    Follows .none progress next := by
  unfold setCommitteeAuthorization at hrun
  simp only [bind_eq_ok] at hrun
  obtain ⟨_, _, _, _, hreturn⟩ := hrun
  cases hreturn
  exact Follows.of_same rfl (fun _ => rfl) rfl

theorem registerDrep_follows {anchor : Option Anchor} {registered : CertProgress}
    (hrun : registerDrep credential deposit anchor progress = .ok registered) :
    Follows (.deposit .drep deposit) progress (registered.takeDeposit .drep deposit) := by
  unfold registerDrep at hrun
  dsimp only at hrun
  split at hrun
  · cases hrun
  · rename_i hnew
    cases hrun
    have hfresh : drepFromCredential credential ∉ progress.drepState := by
      rw [← AList.lookup_isSome]
      exact hnew
    refine ⟨rfl, fun kind => ?_, fun _ => rfl⟩
    cases kind with
    | key | pool => rfl
    | drep =>
      exact total_insert_of_notMem (fun state => state.deposit.toNat)
        _ hfresh
    | proposal => rfl

theorem total_clearDrepDelegation (drep : DRep) (credentials : StakeCredentials) :
    total (·.deposit.toNat) (credentials.clearDrepDelegation drep) =
      total (·.deposit.toNat) credentials := by
  apply total_mapValues_of_eq
  intro state
  split <;> rfl

/-- The deposit that a representative gets back is the one on record. -/
theorem unregisterDrep_follows {refund : UInt64}
    (hrun : unregisterDrep credential refund progress = .ok unregistered) :
    Follows (.refund .drep refund
      (drepDepositOnRecord progress.toCertState (drepFromCredential credential))) progress
        (unregistered.payRefund .drep refund) ∧
      refund = drepDepositOnRecord progress.toCertState (drepFromCredential credential) := by
  unfold unregisterDrep at hrun
  dsimp only at hrun
  cases hlookup : progress.drepState.lookup (drepFromCredential credential) with
  | none =>
    rw [hlookup] at hrun
    cases hrun
  | some entry =>
    rw [hlookup] at hrun
    simp only [bind_eq_ok, rejectIf_eq_ok, not_not] at hrun
    obtain ⟨_, hrefund, hreturn⟩ := hrun
    cases hreturn
    have hrecord : drepDepositOnRecord progress.toCertState (drepFromCredential credential) =
        entry.deposit := by
      simp [drepDepositOnRecord, hlookup]
    refine ⟨⟨rfl, fun kind => ?_, fun _ => rfl⟩, hrefund.trans hrecord.symm⟩
    cases kind with
    | key =>
      exact total_clearDrepDelegation (drepFromCredential credential)
        progress.stakeCredentials
    | pool => rfl
    | drep =>
      have herase := total_erase (fun state => state.deposit.toNat)
        progress.drepState (drepFromCredential credential)
      have hamount : amountAt (fun state => state.deposit.toNat)
          progress.drepState (drepFromCredential credential) = entry.deposit.toNat := by
        simp [amountAt, hlookup]
      rw [hamount] at herase
      rw [hrecord]
      exact herase
    | proposal => rfl

theorem updateDrep_follows {anchor : Option Anchor}
    (hrun : updateDrep credential anchor progress = .ok next) : Follows .none progress next := by
  unfold updateDrep at hrun
  dsimp only at hrun
  split at hrun
  · cases hrun
    refine Follows.of_same rfl (fun kind => ?_) rfl
    cases kind with
    | key | pool => rfl
    | drep =>
      dsimp only [recorded]
      apply total_modify_of_eq
      intro state
      rfl
    | proposal => rfl
  · cases hrun

end

/-! ## Pools and genesis delegations -/

theorem isRegistered_eq_false {pools : PoolState} {operator : PoolKeyHash}
    (hnew : pools.isRegistered operator = false) : operator ∉ pools.entries := by
  rw [← AList.lookup_isSome, Bool.not_eq_true]
  exact hnew

theorem total_registerWithDeposit (params : PoolParams) (deposit : UInt64) (pools : PoolState) :
    total (·.deposit.toNat) (pools.registerWithDeposit params deposit).entries =
      total (·.deposit.toNat) pools.entries +
        if pools.isRegistered params.operator then 0 else deposit.toNat := by
  unfold PoolState.registerWithDeposit
  cases hregistered : pools.isRegistered params.operator with
  | true =>
    rw [if_pos rfl]
    apply total_modify_of_eq
    intro pool
    rfl
  | false =>
    rw [if_neg Bool.false_ne_true]
    exact total_insert_of_notMem _ _ (isRegistered_eq_false hregistered)

section

variable {Update : Type} {env : CertEnv Update} {progress next : CertProgress}

variable {context : CertificateValidationContext}

theorem registerPool_follows {params : PoolParams}
    (hrun : registerPool context params progress = .ok next) :
    Follows (if progress.poolState.isRegistered params.operator then .none
      else .deposit .pool context.poolDeposit) progress next := by
  obtain ⟨_, _, hreturn⟩ := bind_eq_ok.mp hrun
  cases hreturn
  have hpools := total_registerWithDeposit params context.poolDeposit progress.poolState
  cases hregistered : progress.poolState.isRegistered params.operator with
  | true =>
    rw [hregistered] at hpools
    refine Follows.of_same rfl (fun kind => ?_) rfl
    cases kind with
    | key => rfl
    | pool => exact hpools
    | drep | proposal => rfl
  | false =>
    rw [hregistered] at hpools
    refine ⟨rfl, fun kind => ?_, fun _ => rfl⟩
    cases kind with
    | key => rfl
    | pool => exact hpools
    | drep | proposal => rfl

theorem retirePool_follows {pool : PoolKeyHash} {epoch : EpochNo}
    (hrun : retirePool context pool epoch progress = .ok next) : Follows .none progress next := by
  unfold retirePool at hrun
  simp only [bind_eq_ok] at hrun
  obtain ⟨_, _, _, _, _, _, hreturn⟩ := hrun
  cases hreturn
  refine Follows.of_same rfl (fun kind => ?_) rfl
  cases kind with
  | key => rfl
  | pool =>
    dsimp only [recorded]
    apply total_modify_of_eq
    intro state
    rfl
  | drep | proposal => rfl

theorem delegateGenesis_follows {genesisHash delegateHash : Hash28} {vrfHash : VrfKeyHash}
    (hrun : delegateGenesis env genesisHash delegateHash vrfHash progress = .ok next) :
    Follows .none progress next := by
  unfold delegateGenesis at hrun
  simp only [bind_eq_ok] at hrun
  obtain ⟨_, _, _, _, _, _, hreturn⟩ := hrun
  cases hreturn
  cases env.stabilityWindow with
  | none | some window => exact Follows.of_same rfl (fun _ => rfl) rfl

/-! ## The rule -/

/-- What a certificate pays in or out, read off the state before it. -/
def movementOf (context : CertificateValidationContext) (state : CertState) : Certificate → Movement
  | .accountRegistration _ => .deposit .key context.keyDeposit
  | .accountRegistrationDeposit _ deposit => .deposit .key deposit
  | .accountRegistrationDelegationToStakePool _ _ deposit => .deposit .key deposit
  | .accountRegistrationDelegationToDrep _ _ deposit => .deposit .key deposit
  | .accountRegistrationDelegationToStakePoolAndDrep _ _ _ deposit => .deposit .key deposit
  | .accountUnregistration credential =>
    .refund .key context.keyDeposit (keyDepositOnRecord state credential)
  | .accountUnregistrationDeposit credential refund =>
    .refund .key refund (keyDepositOnRecord state credential)
  | .poolRegistration params =>
    if state.poolState.isRegistered params.operator then .none
    else .deposit .pool context.poolDeposit
  | .drepRegistration _ deposit _ => .deposit .drep deposit
  | .drepUnregistration credential refund =>
    .refund .drep refund (drepDepositOnRecord state (drepFromCredential credential))
  | _ => .none

theorem isConway_of_gate {certificate : Certificate}
    (hgate : checkEraOfCertificate context certificate = .ok ())
    (honly : certificate.isConwayOnly = true) : context.isConway = true := by
  obtain ⟨_, hfirst, -⟩ := bind_eq_ok.mp hgate
  have hnot := rejectIf_eq_ok.mp hfirst
  cases hconway : context.isConway with
  | true => rfl
  | false => exact absurd ⟨honly, by simp [hconway]⟩ hnot

/-- **What a certificate does.**  It moves what `movementOf` says between the pot and the
transaction, the registries record and release it, and no balance changes. -/
theorem applyCertificate_follows {certificate : Certificate × Nat}
    (hrun : applyCertificate env progress certificate = .ok next) :
    Follows (movementOf env.context progress.toCertState certificate.1) progress next := by
  obtain ⟨⟨⟩, hgate, hbody⟩ := bind_eq_ok.mp hrun
  obtain ⟨certificate, certIndex⟩ := certificate
  cases certificate with
  | accountRegistration credential => exact registerAccount_follows hbody
  | accountRegistrationDeposit credential deposit =>
    exact registerAccountWithDeposit_follows (isConway_of_gate hgate rfl) hbody
  | accountUnregistration credential =>
    obtain ⟨unregistered, hunregister, hreturn⟩ := bind_eq_ok.mp hbody
    cases hreturn
    exact unregister_follows _ hunregister
  | accountUnregistrationDeposit credential refund =>
    obtain ⟨_, _, hrest⟩ := bind_eq_ok.mp hbody
    obtain ⟨unregistered, hunregister, hreturn⟩ := bind_eq_ok.mp hrest
    cases hreturn
    exact unregister_follows _ hunregister
  | delegationToStakePool credential pool => exact delegateStakeCredential_follows hbody
  | accountRegistrationDelegationToStakePool credential pool deposit =>
    obtain ⟨registered, hregister, hdelegate⟩ := bind_eq_ok.mp hbody
    exact (registerAccountWithDeposit_follows (isConway_of_gate hgate rfl) hregister).then_none
      (delegateStakeCredential_follows hdelegate)
  | delegationToDrep credential drep => exact delegateDrep_follows hbody
  | delegationToStakePoolAndDrep credential pool drep =>
    obtain ⟨delegated, hpool, hdrep⟩ := bind_eq_ok.mp hbody
    exact (delegateStakeCredential_follows hpool).then_none (delegateDrep_follows hdrep)
  | accountRegistrationDelegationToDrep credential drep deposit =>
    obtain ⟨registered, hregister, hdelegate⟩ := bind_eq_ok.mp hbody
    exact (registerAccountWithDeposit_follows (isConway_of_gate hgate rfl) hregister).then_none
      (delegateDrep_follows hdelegate)
  | accountRegistrationDelegationToStakePoolAndDrep credential pool drep deposit =>
    obtain ⟨registered, hregister, hrest⟩ := bind_eq_ok.mp hbody
    obtain ⟨delegated, hpool, hdrep⟩ := bind_eq_ok.mp hrest
    exact ((registerAccountWithDeposit_follows (isConway_of_gate hgate rfl)
      hregister).then_none (delegateStakeCredential_follows hpool)).then_none
        (delegateDrep_follows hdrep)
  | committeeAuthorization cold hot => exact setCommitteeAuthorization_follows hbody
  | committeeResignation cold anchor => exact setCommitteeAuthorization_follows hbody
  | poolRegistration params => exact registerPool_follows hbody
  | poolRetirement pool epoch => exact retirePool_follows hbody
  | drepRegistration credential deposit anchor =>
    obtain ⟨_, _, hrest⟩ := bind_eq_ok.mp hbody
    obtain ⟨registered, hregister, hreturn⟩ := bind_eq_ok.mp hrest
    cases hreturn
    exact registerDrep_follows hregister
  | drepUnregistration credential refund =>
    obtain ⟨unregistered, hunregister, hreturn⟩ := bind_eq_ok.mp hbody
    cases hreturn
    exact (unregisterDrep_follows hunregister).1
  | drepUpdate credential anchor => exact updateDrep_follows hbody
  | genesisDelegation genesisHash delegateHash vrfHash => exact delegateGenesis_follows hbody
  | moveInstantaneousReward pot target =>
    obtain ⟨_, _, hreturn⟩ := bind_eq_ok.mp hbody
    cases hreturn
    exact Follows.of_same rfl (fun _ => rfl) rfl

end

end Yggdrasil.Ledger
