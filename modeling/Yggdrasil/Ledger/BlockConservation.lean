import Yggdrasil.Ledger.DepositMovements
import Yggdrasil.Ledger.ValueConservation

/-!
# Lovelace across a block

What an accepted Alonzo, Babbage or Conway block does to the lovelace in the UTxO set, the
reward accounts, the deposit pot and the donations, against the fees that the node credits for
the block (`total_transaction_fees_with_utxo` in `node/sync`).

The fees are computed from the UTxO set before the block, while the block moves a running set.
For a transaction whose scripts fail the two may differ, a refund may exceed what is in the pot,
and an output may replace an entry that is there; `txDrift` collects these differences, and a
block conserves lovelace exactly when they add up to zero.
-/

namespace Yggdrasil.Ledger

open Library KeyedMap

/-! ## The fees of a block -/

section

variable {Extra : Type}

/-- The lovelace of the inputs that resolve, summed with wrap-around. -/
def resolvedCoins (utxo : MultiEraUtxo) (inputs : List ShelleyTxIn) : UInt64 :=
  ((inputs.filterMap utxo.lookup).map (·.coin)).foldl (· + ·) 0

/-- `babbage_collateral_fee`: the declared total, or what the inputs hold beyond the return. -/
def babbageCollateralFee (totalCollateral : Option UInt64)
    (collateralInputs : Option (List ShelleyTxIn)) (collateralReturnCoin : Option UInt64)
    (utxo : MultiEraUtxo) : UInt64 :=
  match totalCollateral with
  | some total => total
  | none =>
    saturatingSub (resolvedCoins utxo (collateralInputs.getD [])) (collateralReturnCoin.getD 0)

/-- What the node credits for one transaction. -/
def transactionFee (era : ScriptEra) (utxo : MultiEraUtxo) (tx : DecodedTx Extra) : UInt64 :=
  if tx.txIsValid then tx.body.fee
  else
    match era with
    | .alonzo => resolvedCoins utxo (tx.body.collateral.getD [])
    | _ => babbageCollateralFee tx.body.totalCollateral tx.body.collateral
        (tx.body.collateralReturn.map fun output => output.amount.lovelace) utxo

/-- What the node credits for a block; `utxo` is the set before it. -/
def totalTransactionFeesWithUtxo (era : ScriptEra) (utxo : MultiEraUtxo)
    (txs : List (DecodedTx Extra)) : UInt64 :=
  (txs.map (transactionFee era utxo)).foldl (· + ·) 0

theorem toNat_totalTransactionFees {era : ScriptEra} {utxo : MultiEraUtxo}
    {txs : List (DecodedTx Extra)}
    (hfits : (txs.map fun tx => (transactionFee era utxo tx).toNat).sum < 2 ^ 64) :
    ((totalTransactionFeesWithUtxo era utxo txs).toNat : Int) =
      (txs.zipIdx.map fun tx => ((transactionFee era utxo tx.1).toNat : Int)).sum := by
  have hplaces : txs.zipIdx.map (fun tx => ((transactionFee era utxo tx.1).toNat : Int)) =
      (txs.map fun tx => (transactionFee era utxo tx).toNat).map Nat.cast := by
    conv_rhs => rw [← List.zipIdx_map_fst 0 txs, List.map_map, List.map_map]
    rfl
  unfold totalTransactionFeesWithUtxo
  rw [hplaces, toNat_foldl_add, List.map_map, ← Nat.cast_list_sum]
  have hzero : (0 : UInt64).toNat = 0 := rfl
  have hsame : (txs.map (UInt64.toNat ∘ transactionFee era utxo)).sum =
      (txs.map fun tx => (transactionFee era utxo tx).toNat).sum := rfl
  omega

end

/-! ## Pot and totals -/

theorem DepositPot.total_toNat {pot : DepositPot} (hfits : pot.lovelace < 2 ^ 64) :
    pot.total.toNat = pot.lovelace := by
  unfold DepositPot.total DepositPot.lovelace at *
  simp only [toNat_saturatingAdd]
  omega

theorem DepositPot.lovelace_addDeposit {pot : DepositPot} (kind : DepositKind) {amount : UInt64}
    (hfits : (pot.deposits kind).toNat + amount.toNat < 2 ^ 64) :
    (pot.addDeposit kind amount).lovelace = pot.lovelace + amount.toNat := by
  have hset := pot.lovelace_setDeposits (saturatingAdd (pot.deposits kind) amount) kind
  rw [toNat_saturatingAdd] at hset
  unfold DepositPot.addDeposit
  omega

/-- A refund takes what is there; the rest is not covered. -/
theorem DepositPot.lovelace_returnDeposit (pot : DepositPot) (kind : DepositKind)
    (amount : UInt64) :
    (pot.returnDeposit kind amount).lovelace + amount.toNat =
      pot.lovelace + (amount.toNat - (pot.deposits kind).toNat) := by
  have hset := pot.lovelace_setDeposits (saturatingSub (pot.deposits kind) amount) kind
  rw [toNat_saturatingSub] at hset
  unfold DepositPot.returnDeposit
  omega

namespace Movement

/-- The sums a movement adds to stay words. -/
def Fits (books : Books) : Movement → Prop
  | none => True
  | deposit kind amount =>
    (books.depositPot.deposits kind).toNat + amount.toNat < 2 ^ 64 ∧
      books.totalDeposits.toNat + amount.toNat < 2 ^ 64
  | refund _ amount _ => books.totalRefunds.toNat + amount.toNat < 2 ^ 64

/-- The part of a refund that the pot does not hold. -/
def uncovered (books : Books) : Movement → Nat
  | refund kind amount _ => amount.toNat - (books.depositPot.deposits kind).toNat
  | _ => 0

end Movement

/-- The pot, with refunds that the transaction is still owed and without deposits it still has
to pay. -/
def Books.net (books : Books) : Int :=
  books.depositPot.lovelace + books.totalRefunds.toNat - books.totalDeposits.toNat

theorem Movement.net_perform {movement : Movement} {books : Books} (hfits : movement.Fits books) :
    (movement.perform books).net = books.net + movement.uncovered books := by
  cases movement with
  | none => simp [Movement.perform, Movement.uncovered]
  | deposit kind amount =>
    have hpot := DepositPot.lovelace_addDeposit kind hfits.1
    have htotal := toNat_saturatingAdd books.totalDeposits amount
    have hword := hfits.2
    simp only [Movement.perform, Movement.uncovered, Books.net]
    omega
  | refund kind amount onRecord =>
    have hpot := books.depositPot.lovelace_returnDeposit kind amount
    have htotal := toNat_saturatingAdd books.totalRefunds amount
    have hword : books.totalRefunds.toNat + amount.toNat < 2 ^ 64 := hfits
    simp only [Movement.perform, Movement.uncovered, Books.net, htotal]
    omega

section

variable {Update : Type} (env : CertEnv Update)

/-- No sum overflows in the certificates of a transaction. -/
def CertificatesFit (state : CertState) (certificates : Option (List Certificate))
    (withdrawals : Option (List (RewardAccount × UInt64))) : Prop :=
  ∀ start, afterWithdrawals state withdrawals = .ok start →
    Along (applyCertificate env) (fun progress certificate =>
      (movementOf env.context progress.toCertState certificate.1).Fits progress.books) start
      (certificates.getD []).zipIdx

/-- The refunds of a transaction beyond what is in the pot. -/
def uncoveredRefunds (state : CertState) (certificates : Option (List Certificate))
    (withdrawals : Option (List (RewardAccount × UInt64))) : Int :=
  match afterWithdrawals state withdrawals with
  | .error _ => 0
  | .ok start =>
    sumAlong (applyCertificate env) (fun progress certificate =>
      ((movementOf env.context progress.toCertState certificate.1).uncovered progress.books : Int))
      start (certificates.getD []).zipIdx

variable {env}

variable {certificates : List (Certificate × Nat)}

theorem certificates_totalBalance {start final : CertProgress}
    (hbalances : totalBalance start.rewardAccounts < 2 ^ 64)
    (hloop : certificates.foldlM (applyCertificate env) start = .ok final) :
    totalBalance final.rewardAccounts = totalBalance start.rewardAccounts := by
  induction certificates generalizing start with
  | nil =>
    cases hloop
    rfl
  | cons certificate rest ih =>
    obtain ⟨next, hnext, hrest⟩ := foldlM_cons_eq_ok.mp hloop
    have hsame := (applyCertificate_follows hnext).balances hbalances
    rw [ih (hsame ▸ hbalances) hrest, hsame]

theorem certificates_net {start final : CertProgress}
    (halong : Along (applyCertificate env) (fun progress certificate =>
      (movementOf env.context progress.toCertState certificate.1).Fits progress.books) start
      certificates) (hloop : certificates.foldlM (applyCertificate env) start = .ok final) :
    final.books.net = start.books.net +
      sumAlong (applyCertificate env) (fun progress certificate =>
        ((movementOf env.context progress.toCertState certificate.1).uncovered
          progress.books : Int)) start certificates := by
  refine measure_foldlM (fun _ => True) (fun progress => progress.books.net) _
    (fun _ _ _ _ _ _ => trivial) ?_ trivial halong hloop
  intro current certificate next _ hfit hnext
  have hnet := Movement.net_perform hfit
  rw [← (applyCertificate_follows hnext).books] at hnet
  exact hnet

/-- Withdrawals and certificates move lovelace between the transaction, the accounts and the
pot; only refunds that are not covered come from nowhere. -/
theorem applyCertificatesAndWithdrawals_balance {state certified : CertState}
    {certificates : Option (List Certificate)}
    {withdrawals : Option (List (RewardAccount × UInt64))} {adjustments : Adjustments}
    (hrun : applyCertificatesAndWithdrawals env state certificates withdrawals =
      .ok (certified, adjustments))
    (hbalances : totalBalance state.rewardAccounts < 2 ^ 64)
    (hfits : CertificatesFit env state certificates withdrawals) :
    (certified.depositPot.lovelace : Int) + totalBalance certified.rewardAccounts +
        adjustments.withdrawalTotal.toNat + adjustments.totalRefunds.toNat =
      state.depositPot.lovelace + totalBalance state.rewardAccounts +
          adjustments.totalDeposits.toNat +
          uncoveredRefunds env state certificates withdrawals ∧
      totalBalance certified.rewardAccounts ≤ totalBalance state.rewardAccounts := by
  obtain ⟨start, hstart, hrest⟩ := bind_eq_ok.mp hrun
  obtain ⟨progress, hloop, hreturn⟩ := bind_eq_ok.mp hrest
  cases hreturn
  have halong := hfits start hstart
  unfold uncoveredRefunds
  rw [hstart]
  obtain ⟨accounts, haccounts, hbegin⟩ := bind_eq_ok.mp hstart
  cases hbegin
  have hdrained := withdrawals_total haccounts
  have hwithdrawn := toNat_foldl_saturatingAdd ((withdrawals.getD []).map Prod.snd) 0
  rw [List.map_map] at hwithdrawn
  have hzero : (0 : UInt64).toNat = 0 := rfl
  have hsum : ((withdrawals.getD []).map (UInt64.toNat ∘ Prod.snd)).sum =
      ((withdrawals.getD []).map (·.2.toNat)).sum := rfl
  have hnet := certificates_net halong hloop
  have hkept := certificates_totalBalance (by dsimp only; omega) hloop
  have hfinal : progress.books.net = progress.depositPot.lovelace +
    progress.totalRefunds.toNat - progress.totalDeposits.toNat := rfl
  have hbegin : (CertProgress.mk { state with rewardAccounts := accounts } 0 0).books.net =
      state.depositPot.lovelace := by
    simp [CertProgress.books, Books.net]
  dsimp only at hkept ⊢
  omega

end

/-! ## One transaction -/

section

variable {Update Other More Evaluator : Type}

/-- The lovelace that a block moves, in the middle of the block. -/
def stagedAda (staged : Staged (LedgerRest Update Other)) : Int :=
  totalLovelace staged.utxo + totalBalance staged.rest.rewardAccounts +
    staged.rest.depositPot.lovelace + staged.rest.utxosDonation.toNat

/-- The entries that a transaction adds to the set. -/
def addedEntries {Extra : Type} (era : ScriptEra) (tx : DecodedTx Extra) :
    List (ShelleyTxIn × MultiEraTxOut) :=
  if tx.txIsValid then outputEntries tx.id tx.body.outputs
  else (tx.collateralReturn era).toList.map fun output =>
    (⟨tx.id, .ofNat tx.body.outputs.length⟩, .babbage output)

/-- The lovelace of the entries that a transaction takes out of the set. -/
def removedLovelace {Extra : Type} (utxo : MultiEraUtxo) (tx : DecodedTx Extra) : Nat :=
  ∑ input ∈ tx.removedInputs.toFinset, lovelaceAt utxo input

/-- The lovelace of the entries that a transaction adds. -/
def addedLovelace {Extra : Type} (era : ScriptEra) (tx : DecodedTx Extra) : Nat :=
  ((addedEntries era tx).map fun entry => entry.2.lovelaceNat).sum

/-- The lovelace of entries that the added ones replace. -/
def overwrittenLovelace {Extra : Type} (era : ScriptEra) (utxo : MultiEraUtxo)
    (tx : DecodedTx Extra) : Nat :=
  overwritten MultiEraTxOut.lovelaceNat (addedEntries era tx)
    (eraseAll tx.removedInputs utxo)

variable {Extra : Type}

variable (era : ScriptEra)

theorem totalLovelace_insertAll (utxo : MultiEraUtxo) (tx : DecodedTx Extra) :
    totalLovelace (insertAll (addedEntries era tx)
        (eraseAll tx.removedInputs utxo)) +
        removedLovelace utxo tx + overwrittenLovelace era utxo tx =
      totalLovelace utxo + addedLovelace era tx := by
  have hspent := total_eraseAll MultiEraTxOut.lovelaceNat tx.removedInputs utxo
  have hadded := total_insertAll_add MultiEraTxOut.lovelaceNat (addedEntries era tx)
    (eraseAll tx.removedInputs utxo)
  unfold totalLovelace removedLovelace overwrittenLovelace addedLovelace lovelaceAt
  omega

/-- The refunds of a valid transaction beyond what is in the pot. -/
def txUncovered (checks : Checks Update Other More Evaluator)
    (context : TxContext Update Other More Evaluator) : Int :=
  match beforeCertificates checks context with
  | .error _ => 0
  | .ok governed => uncoveredRefunds (certEnv context) governed.toCertState
      context.tx.body.extra.certificates context.tx.body.withdrawals

/-- What the credited fee and the collateral return of a failed transaction exceed its
collateral by. -/
def collateralDrift (feeUtxo : MultiEraUtxo) (context : TxContext Update Other More Evaluator) :
    Int :=
  (transactionFee context.era feeUtxo context.tx).toNat + addedLovelace context.era context.tx -
    removedLovelace context.utxo context.tx

/-- What a transaction creates (positive) or destroys (negative), the credited fee counted as
leaving: uncovered refunds when it is valid, unbalanced collateral when it failed, and in both
cases the entries that its outputs replace. -/
def txDrift (checks : Checks Update Other More Evaluator) (feeUtxo : MultiEraUtxo)
    (context : TxContext Update Other More Evaluator) : Int :=
  (if context.tx.txIsValid then txUncovered checks context else collateralDrift feeUtxo context) -
    overwrittenLovelace context.era context.utxo context.tx

/-- No sum overflows in a transaction: its certificates, its proposals and its donation. -/
def TxFits (checks : Checks Update Other More Evaluator)
    (context : TxContext Update Other More Evaluator) : Prop :=
  context.tx.txIsValid = true →
    ∀ governed, beforeCertificates checks context = .ok governed →
      CertificatesFit (certEnv context) governed.toCertState
          context.tx.body.extra.certificates context.tx.body.withdrawals ∧
        (context.era = .conway →
          ∀ certified adjustments, applyCertificatesAndWithdrawals (certEnv context)
              governed.toCertState context.tx.body.extra.certificates
              context.tx.body.withdrawals = .ok (certified, adjustments) →
            certified.depositPot.proposalDeposits.toNat +
                (proposalDeposits context.tx.body.extra).toNat < 2 ^ 64 ∧
              adjustments.totalDeposits.toNat +
                (proposalDeposits context.tx.body.extra).toNat < 2 ^ 64 ∧
              governed.utxosDonation.toNat +
                (context.tx.body.treasuryDonation.getD 0).toNat < 2 ^ 64)

variable {checks : Checks Update Other More Evaluator}
  {context : TxContext Update Other More Evaluator}

theorem txEffects_balance {rest : LedgerRest Update Other} {adjustments : Adjustments}
    (hvalid : context.tx.txIsValid = true)
    (hbalances : totalBalance context.rest.rewardAccounts < 2 ^ 64)
    (hfits : TxFits checks context) (hrun : txEffects checks context = .ok (rest, adjustments)) :
    (rest.depositPot.lovelace : Int) + totalBalance rest.rewardAccounts +
        rest.utxosDonation.toNat + adjustments.withdrawalTotal.toNat +
        adjustments.totalRefunds.toNat =
      context.rest.depositPot.lovelace + totalBalance context.rest.rewardAccounts +
        context.rest.utxosDonation.toNat + adjustments.totalDeposits.toNat +
        ((AssetTx.script context.era context.tx.body).donation).toNat + txUncovered checks context ∧
      totalBalance rest.rewardAccounts ≤ totalBalance context.rest.rewardAccounts := by
  obtain ⟨governed, hbefore, hrest⟩ := bind_eq_ok.mp hrun
  unfold txUncovered
  rw [hbefore]
  obtain ⟨⟨certified, certAdjustments⟩, hcertified, hreturn⟩ := bind_eq_ok.mp hrest
  obtain ⟨haccounts, hpot, hdonation⟩ :
      governed.rewardAccounts = context.rest.rewardAccounts ∧
        governed.depositPot = context.rest.depositPot ∧
        governed.utxosDonation = context.rest.utxosDonation := by
    obtain ⟨dreps, dormant, actions, rfl⟩ := beforeCertificates_frame hbefore
    exact ⟨rfl, rfl, rfl⟩
  obtain ⟨hcertsFit, hconwayFit⟩ := hfits hvalid governed hbefore
  obtain ⟨hcerts, hless⟩ := applyCertificatesAndWithdrawals_balance hcertified
    (haccounts ▸ hbalances) hcertsFit
  rw [haccounts, hpot] at hcerts
  rw [haccounts] at hless
  cases hera : context.era with
  | alonzo | babbage =>
    simp only [hera] at hreturn
    cases hreturn
    simp only [AssetTx.donation, hdonation]
    have hzero : (0 : UInt64).toNat = 0 := rfl
    exact ⟨by omega, hless⟩
  | conway =>
    obtain ⟨hproposals, htotal, hdonated⟩ := hconwayFit hera certified certAdjustments hcertified
    simp only [hera] at hreturn
    cases hreturn
    have hadd := DepositPot.lovelace_addDeposit .proposal hproposals
    have hdeposits := toNat_saturatingAdd certAdjustments.totalDeposits
      (proposalDeposits context.tx.body.extra)
    have hdonations := toNat_saturatingAdd governed.utxosDonation
      (context.tx.body.treasuryDonation.getD 0)
    simp only [DepositPot.addProposalDeposit, hdeposits, hdonations, AssetTx.donation, ← hdonation]
    exact ⟨by omega, hless⟩

theorem insertAll_of_valid (utxo : MultiEraUtxo) {tx : DecodedTx Extra}
    (hvalid : tx.txIsValid = true) :
    insertOutputs (eraseAll tx.body.inputs utxo) tx.id tx.body.outputs =
      insertAll (addedEntries era tx) (eraseAll tx.removedInputs utxo) := by
  unfold addedEntries DecodedTx.removedInputs
  rw [if_pos hvalid, if_pos hvalid, insertOutputs_eq_insertAll]

theorem insertAll_of_failed (utxo : MultiEraUtxo) {tx : DecodedTx Extra}
    (hfailed : ¬ tx.txIsValid = true) :
    applyCollateralOnly utxo tx.id tx.body.collateral (tx.collateralReturn era)
        tx.body.outputs.length =
      insertAll (addedEntries era tx) (eraseAll tx.removedInputs utxo) := by
  unfold addedEntries DecodedTx.removedInputs applyCollateralOnly
  rw [if_neg hfailed, if_neg hfailed]
  cases tx.collateralReturn era with
  | none | some output => rfl

variable (context) in
theorem applyTx_ada {crypto : Crypto} {codec : Codec (TxContents Update More)}
    {next : Staged (LedgerRest Update Other)} (feeUtxo : MultiEraUtxo)
    (hbalances : totalBalance context.rest.rewardAccounts < 2 ^ 64)
    (hfits : TxFits checks context)
    (hrun : applyTx crypto codec (ledgerRules checks) context = .ok next) :
    stagedAda next = stagedAda ⟨context.utxo, context.rest⟩ +
        (txDrift checks feeUtxo context -
          (transactionFee context.era feeUtxo context.tx).toNat) ∧
      totalBalance next.rest.rewardAccounts ≤ totalBalance context.rest.rewardAccounts := by
  have hset := totalLovelace_insertAll context.era context.utxo context.tx
  unfold txDrift stagedAda
  obtain ⟨hvalid, _, heffects, htransition⟩ | ⟨hfailed, rfl⟩ := applyTx_cases hrun
  · obtain ⟨heffect, hless⟩ := txEffects_balance hvalid hbalances hfits heffects
    obtain ⟨hdistinct, hbalanced, hafter⟩ := (applyTxWithdrawals_spec htransition).1
    rw [insertAll_of_valid context.era context.utxo hvalid] at hafter
    have hremoved : removedLovelace context.utxo context.tx =
        (context.tx.body.inputs.map (lovelaceAt context.utxo)).sum := by
      unfold removedLovelace DecodedTx.removedInputs
      rw [if_pos hvalid, List.sum_toFinset _ hdistinct]
    have hadded : addedLovelace context.era context.tx =
        (context.tx.body.outputs.map MultiEraTxOut.lovelaceNat).sum := by
      unfold addedLovelace addedEntries
      rw [if_pos hvalid, sum_outputEntries]
    have hfee : transactionFee context.era feeUtxo context.tx = context.tx.body.fee := by
      unfold transactionFee
      rw [if_pos hvalid]
    rw [hafter, if_pos hvalid, hfee]
    dsimp only at hbalanced ⊢
    exact ⟨by omega, hless⟩
  · rw [insertAll_of_failed context.era context.utxo hfailed, if_neg hfailed]
    unfold collateralDrift
    exact ⟨by dsimp only; omega, le_rfl⟩

end

/-! ## A block -/

section

variable {Update Other More Evaluator : Type}

/-- The lovelace in the UTxO set, the reward accounts, the deposit pot and the donations. -/
def totalAda (state : FullState Update Other) : Nat :=
  totalLovelace state.multiEraUtxo + totalBalance state.rest.rewardAccounts +
    state.rest.depositPot.total.toNat + state.rest.utxosDonation.toNat

/-- The staged parts of a state. -/
def stagedOf (state : FullState Update Other) : Staged (LedgerRest Update Other) :=
  ⟨state.multiEraUtxo, state.rest⟩

variable {state : FullState Update Other}

theorem totalAda_eq (hfits : state.rest.depositPot.lovelace < 2 ^ 64) :
    (totalAda state : Int) = stagedAda (stagedOf state) := by
  have hpot := DepositPot.total_toNat hfits
  unfold totalAda stagedAda stagedOf
  dsimp only
  omega

/-- What a transaction of a block sees. -/
def roundContext (entered : FullState Update Other) (block : ScriptBlock)
    (evaluator : Option Evaluator) (staged : Staged (LedgerRest Update Other))
    (tx : FullTx Update More × Nat) : TxContext Update Other More Evaluator :=
  ⟨entered, block.era, block.header.slotNo, evaluator, tx.2, staged.utxo, staged.rest, tx.1⟩

def blockRound (crypto : Crypto) (codec : Codec (TxContents Update More))
    (checks : Checks Update Other More Evaluator) (entered : FullState Update Other)
    (block : ScriptBlock) (evaluator : Option Evaluator)
    (staged : Staged (LedgerRest Update Other)) (tx : FullTx Update More × Nat) :
    Result (Staged (LedgerRest Update Other)) :=
  applyTx crypto codec (ledgerRules checks) (roundContext entered block evaluator staged tx)

/-- The state in which the transactions of a block start. -/
def enteredState (checks : Checks Update Other More Evaluator) (state : FullState Update Other)
    (block : ScriptBlock) : FullState Update Other :=
  enterBlock (ledgerRules checks) state block

/-- What the activation of the Shelley genesis adds to the set, less what it replaces. -/
def genesisDrift (state : FullState Update Other) : Int :=
  if state.currentEra = .byron then
    let entries := (state.rest.pendingShelleyGenesisUtxo.getD []).map fun entry =>
      (entry.1, MultiEraTxOut.shelley entry.2.1 entry.2.2)
    (entries.map fun entry => entry.2.lovelaceNat).sum -
      overwritten MultiEraTxOut.lovelaceNat entries state.multiEraUtxo
  else 0

/-- The drift of a block: of the genesis activation and of every transaction where it stands. -/
def blockDrift (crypto : Crypto) (codec : Codec (TxContents Update More))
    (checks : Checks Update Other More Evaluator) (state : FullState Update Other)
    (block : ScriptBlock) (evaluator : Option Evaluator) (txs : List (FullTx Update More)) : Int :=
  let entered := enteredState checks state block
  genesisDrift state +
    sumAlong (blockRound crypto codec checks entered block evaluator)
      (fun staged tx =>
        txDrift checks state.multiEraUtxo (roundContext entered block evaluator staged tx))
      (stagedOf entered) txs.zipIdx

/-- No total of the block overflows: the credited fees, the reward balances, the deposit pot
before and after, and the sums inside every transaction. -/
structure NoTotalOverflows (crypto : Crypto) (codec : Codec (TxContents Update More))
    (checks : Checks Update Other More Evaluator) (state after : FullState Update Other)
    (block : ScriptBlock) (evaluator : Option Evaluator) (txs : List (FullTx Update More)) :
    Prop where
  fees : (txs.map fun tx => (transactionFee block.era state.multiEraUtxo tx).toNat).sum < 2 ^ 64
  balances : totalBalance state.rest.rewardAccounts < 2 ^ 64
  potBefore : state.rest.depositPot.lovelace < 2 ^ 64
  potAfter : after.rest.depositPot.lovelace < 2 ^ 64
  transactions : Along
    (blockRound crypto codec checks (enteredState checks state block) block evaluator)
    (fun staged tx => TxFits checks
      (roundContext (enteredState checks state block) block evaluator staged tx))
    (stagedOf (enteredState checks state block)) txs.zipIdx

theorem applyTxs_eq_foldlM (crypto : Crypto) (codec : Codec (TxContents Update More))
    (checks : Checks Update Other More Evaluator) (entered : FullState Update Other)
    (block : ScriptBlock) (evaluator : Option Evaluator) (index : Nat)
    (staged : Staged (LedgerRest Update Other)) (txs : List (FullTx Update More)) :
    applyTxs crypto codec (ledgerRules checks) entered block.era block.header.slotNo evaluator
        index staged txs =
      (txs.zipIdx index).foldlM (blockRound crypto codec checks entered block evaluator)
        staged := by
  induction txs generalizing index staged with
  | nil => rfl
  | cons tx rest ih =>
    rw [List.zipIdx_cons]
    exact bind_congr fun next => ih (index + 1) next

theorem stagedOf_adoptBlockProtocolVersion (block : ScriptBlock)
    (prepared : FullState Update Other) :
    stagedOf (adoptBlockProtocolVersion block prepared) = stagedOf prepared := by
  obtain hsame | ⟨_, _, -, -, hraised⟩ := adoptBlockProtocolVersion_cases block prepared
  · rw [hsame]
  · rw [hraised]
    rfl

theorem stagedAda_enteredState (checks : Checks Update Other More Evaluator)
    (state : FullState Update Other) (block : ScriptBlock) :
    stagedAda (stagedOf (enteredState checks state block)) =
        stagedAda (stagedOf state) + genesisDrift state ∧
      (stagedOf (enteredState checks state block)).rest.rewardAccounts =
        state.rest.rewardAccounts := by
  unfold enteredState enterBlock
  rw [stagedOf_adoptBlockProtocolVersion]
  change stagedAda (stagedOf (prepareBlock block.header.slotNo state)) = _ ∧
    (prepareBlock block.header.slotNo state).rest.rewardAccounts = _
  unfold prepareBlock activatePendingShelleyGenesis genesisDrift
  split
  · have hinserted := total_insertAll_add MultiEraTxOut.lovelaceNat
      ((state.rest.pendingShelleyGenesisUtxo.getD []).map fun entry =>
        (entry.1, MultiEraTxOut.shelley entry.2.1 entry.2.2)) state.multiEraUtxo
    refine ⟨?_, rfl⟩
    simp only [stagedAda, stagedOf, totalLovelace, insertGenesisUtxo,
      applyScheduledGenesisDelegations]
    omega
  · exact ⟨(add_zero _).symm, rfl⟩

variable {checks : Checks Update Other More Evaluator} {crypto : Crypto}
  {codec : Codec (TxContents Update More)} {block : ScriptBlock} {evaluator : Option Evaluator}

theorem finishBlock_frame {era : ScriptEra} {slot : SlotNo} {txs : List (FullTx Update More)}
    {rest : LedgerRest Update Other} (hrun : finishBlock checks era slot state txs = .ok rest) :
    rest.toCertState = state.rest.toCertState ∧
      rest.governanceActions = state.rest.governanceActions ∧
      rest.utxosDonation = state.rest.utxosDonation := by
  unfold finishBlock at hrun
  split at hrun
  · cases hrun
    exact ⟨rfl, rfl, rfl⟩
  · obtain ⟨_, _, hreturn⟩ := bind_eq_ok.mp hrun
    cases hreturn
    exact ⟨rfl, rfl, rfl⟩

/-- The transactions of an accepted block, run from the entered state; what follows them moves
no lovelace and no registry. -/
theorem applyBlockValidated_transactions {after : FullState Update Other}
    {txs : List (FullTx Update More)}
    (hdecode : block.transactions.mapM (decodeTx codec block.era) = .ok txs)
    (happly : applyBlockValidated crypto codec (ledgerRules checks) state block evaluator =
      .ok after) :
    ∃ staged, txs.zipIdx.foldlM
        (blockRound crypto codec checks (enteredState checks state block) block evaluator)
        (stagedOf (enteredState checks state block)) = .ok staged ∧
      after.multiEraUtxo = staged.utxo ∧ after.rest.toCertState = staged.rest.toCertState ∧
      after.rest.governanceActions = staged.rest.governanceActions ∧
      after.rest.utxosDonation = staged.rest.utxosDonation := by
  unfold applyBlockValidated at happly
  simp only [bind_eq_ok] at happly
  obtain ⟨_, _, _, _, _, _, applied, happlied, hreturn⟩ := happly
  cases hreturn
  have hentered : enterBlock (ledgerRules checks) state block = enteredState checks state block :=
    rfl
  rw [hentered] at happlied
  by_cases hempty : block.transactions.isEmpty
  · have hnone := List.isEmpty_iff.mp hempty
    unfold applyEraBlock at happlied
    rw [if_pos hempty] at happlied
    rw [hnone] at hdecode
    cases hdecode
    cases happlied
    exact ⟨_, rfl, rfl, rfl, rfl, rfl⟩
  · obtain ⟨staged, finished, hloop, hfinish, happliedEq⟩ :=
      applyEraBlock_eq_ok hempty hdecode happlied
    rw [applyTxs_eq_foldlM] at hloop
    obtain ⟨hcerts, hactions, hdonation⟩ := finishBlock_frame hfinish
    refine ⟨staged, hloop, ?_⟩
    rw [happliedEq]
    exact ⟨rfl, hcerts, hactions, hdonation⟩

/-- The transactions of a block change the lovelace by their drifts less their fees. -/
theorem transactions_ada {entered : FullState Update Other}
    {start final : Staged (LedgerRest Update Other)} {txs : List (FullTx Update More × Nat)}
    (feeUtxo : MultiEraUtxo) (hbalances : totalBalance start.rest.rewardAccounts < 2 ^ 64)
    (hfits : Along (blockRound crypto codec checks entered block evaluator)
      (fun staged tx => TxFits checks (roundContext entered block evaluator staged tx)) start txs)
    (hloop : txs.foldlM (blockRound crypto codec checks entered block evaluator) start =
      .ok final) :
    stagedAda final = stagedAda start +
      (sumAlong (blockRound crypto codec checks entered block evaluator)
          (fun staged tx => txDrift checks feeUtxo (roundContext entered block evaluator staged tx))
          start txs -
        (txs.map fun tx => ((transactionFee block.era feeUtxo tx.1).toNat : Int)).sum) := by
  have hround : ∀ current tx next, totalBalance current.rest.rewardAccounts < 2 ^ 64 →
      TxFits checks (roundContext entered block evaluator current tx) →
      blockRound crypto codec checks entered block evaluator current tx = .ok next →
        stagedAda next = stagedAda current +
          (txDrift checks feeUtxo (roundContext entered block evaluator current tx) -
            ((transactionFee block.era feeUtxo tx.1).toNat : Int)) ∧
          totalBalance next.rest.rewardAccounts ≤ totalBalance current.rest.rewardAccounts :=
    fun current tx next hsmall hfit hnext =>
      applyTx_ada (roundContext entered block evaluator current tx) feeUtxo hsmall hfit hnext
  have hfees : sumAlong (blockRound crypto codec checks entered block evaluator)
      (fun _ tx => ((transactionFee block.era feeUtxo tx.1).toNat : Int)) start txs =
        (txs.map fun tx => ((transactionFee block.era feeUtxo tx.1).toNat : Int)).sum :=
    sumAlong_of_foldlM _ hloop
  have hmeasure := measure_foldlM (fun staged =>
      totalBalance staged.rest.rewardAccounts < 2 ^ 64) stagedAda
    (fun staged tx => txDrift checks feeUtxo (roundContext entered block evaluator staged tx) -
      ((transactionFee block.era feeUtxo tx.1).toNat : Int))
    (fun current tx next hsmall hfit hnext =>
      lt_of_le_of_lt (hround current tx next hsmall hfit hnext).2 hsmall)
    (fun current tx next hsmall hfit hnext => (hround current tx next hsmall hfit hnext).1)
    hbalances hfits hloop
  rw [hmeasure, sumAlong_sub, hfees]

/-- **When a block conserves lovelace.**  For every ledger state and every accepted Alonzo,
Babbage or Conway block in which no total overflows, what the UTxO set, the reward accounts, the
deposit pot and the donations hold before the block is what they hold after it plus the credited
fees, exactly when the drift of the block is zero: the genesis funds activated, the refunds that
the pot does not cover, and the credited fees and collateral returns of failed transactions
balance the collateral these spend and the entries that outputs replace. -/
theorem conservesAda_iff (crypto : Crypto) (codec : Codec (TxContents Update More))
    (checks : Checks Update Other More Evaluator) (state after : FullState Update Other)
    (block : ScriptBlock) (evaluator : Option Evaluator) (txs : List (FullTx Update More))
    (hdecode : block.transactions.mapM (decodeTx codec block.era) = .ok txs)
    (happly : applyBlockValidated crypto codec (ledgerRules checks) state block evaluator =
      .ok after)
    (hfits : NoTotalOverflows crypto codec checks state after block evaluator txs) :
    totalAda state = totalAda after +
        (totalTransactionFeesWithUtxo block.era state.multiEraUtxo txs).toNat ↔
      blockDrift crypto codec checks state block evaluator txs = 0 := by
  obtain ⟨staged, hloop, hutxo, hcerts, -, hdonation⟩ :=
    applyBlockValidated_transactions hdecode happly
  have hafter : stagedAda (stagedOf after) = stagedAda staged := by
    unfold stagedAda stagedOf
    rw [hutxo, hcerts, hdonation]
  obtain ⟨hentered, haccounts⟩ := stagedAda_enteredState checks state block
  have hmoved := transactions_ada state.multiEraUtxo (haccounts ▸ hfits.balances)
    hfits.transactions hloop
  have hfees := toNat_totalTransactionFees hfits.fees
  have hbefore := totalAda_eq hfits.potBefore
  have htotal := totalAda_eq hfits.potAfter
  unfold blockDrift
  rw [← Int.natCast_inj, Int.natCast_add, hfees, hbefore, htotal, hafter, hmoved, hentered]
  constructor
  · intro hconserved
    linarith only [hconserved]
  · intro hdrift
    linarith only [hdrift]

end

/-! ## Collateral from the same block -/

/-- A transaction without certificates before Conway adds nothing up. -/
theorem txFits_of_plain {Update Other More Evaluator : Type}
    {checks : Checks Update Other More Evaluator}
    {context : TxContext Update Other More Evaluator} (hera : context.era ≠ .conway)
    (hplain : context.tx.body.extra.certificates = none) : TxFits checks context := by
  intro _ governed _
  constructor
  · intro start _
    rw [hplain]
    trivial
  · intro hconway
    exact absurd hconway hera

/-- Checks that refuse nothing. -/
def openChecks : Checks Unit Unit Unit Unit where
  integrity _ := .ok ()
  network _ := .ok ()
  scripts _ := .ok ()
  phase2 _ := .ok ()
  voters _ _ _ := .ok ()
  proposal _ _ _ _ _ := .ok ()
  votes _ _ _ := .ok ()
  collectProposals _ _ _ _ := .ok ()
  recordProducer _ _ := ()

/-- A body with inputs, outputs, collateral and a fee of 200000 lovelace. -/
def plainBody (inputs : List ShelleyTxIn) (outputs : List MultiEraTxOut)
    (collateral : Option (List ShelleyTxIn)) : TxBody (TxContents Unit Unit) where
  inputs := inputs
  outputs := outputs
  fee := 200000
  ttl := none
  validityIntervalStart := none
  certificates := none
  withdrawals := none
  updateProposers := none
  mint := none
  collateral := collateral
  requiredSigners := none
  collateralReturn := none
  totalCollateral := none
  referenceInputs := none
  voters := none
  treasuryDonation := none
  extra := ⟨none, none, none, none, ()⟩

/-- Lovelace at an address that a key locks. -/
def adaOutput (lovelace : UInt64) : MultiEraTxOut :=
  .babbage ⟨0x61 :: List.replicate 28 0, .coin lovelace, none, none⟩

/-- Two bodies: a payment of 9.8 ada, and a transaction with that payment as collateral. -/
def chainCodec : Codec (TxContents Unit Unit) where
  body _ bytes :=
    if bytes = [1] then .ok (plainBody [⟨1, 0⟩] [adaOutput 9800000] none)
    else .ok (plainBody [⟨2, 0⟩] [] (some [⟨2, 0⟩]))
  outputRawSizes bytes := .ok (if bytes = [1] then [40] else [], none)
  witnessSet _ := .ok ⟨[], [], []⟩

def tenAdaState : FullState Unit Unit where
  tip := .origin
  currentEra := .babbage
  protocolParams := some .alonzoDefaults
  genDelegs := ∅
  multiEraUtxo := single ⟨1, 0⟩ (adaOutput 10000000)
  rest :=
    { poolState := ⟨∅, ∅⟩
      stakeCredentials := ∅
      committeeState := ∅
      drepState := ∅
      rewardAccounts := ∅
      depositPot := ⟨0, 0, 0, 0⟩
      genDelegs := ∅
      futureGenDelegs := ∅
      currentEpoch := 0
      expectedNetworkId := none
      governanceActions := ∅
      accounting := ⟨0, 0⟩
      utxosDonation := 0
      numDormantEpochs := 0
      instantaneousRewards := ⟨∅, ∅, 0, 0⟩
      stabilityWindow := none
      slotsPerEpoch := 0
      byronShelleyTransition := none
      pendingShelleyGenesisUtxo := none
      pendingShelleyGenesisStake := none
      pendingShelleyGenesisPools := none
      pendingShelleyGenesisDelegs := none
      other := () }

/-- The payment and, behind it, the transaction whose scripts fail. -/
def chainTxs : List Tx := [⟨2, [1], none, none, some true⟩, ⟨3, [2], none, none, some false⟩]

def chainBlock (txs : List Tx) : ScriptBlock where
  era := .babbage
  header := ⟨9, 8, 5, 1⟩
  protocolVersion := none
  headerCborSize := none
  transactions := txs

/-- Hashes and signatures that play no part in transactions without witness bytes. -/
def zeroCrypto : Crypto where
  hashBytes224 _ := 0
  sha3 _ := 0
  verify _ _ _ := true

/-- The state after a block, with the set that is left. -/
def afterChain (utxo : MultiEraUtxo) : FullState Unit Unit :=
  { tenAdaState with tip := .blockPoint 5 9, multiEraUtxo := utxo }

def decodedChain : List (FullTx Unit Unit) :=
  [⟨2, 4, plainBody [⟨1, 0⟩] [adaOutput 9800000] none, some [40], none, none, none, some true⟩,
    ⟨3, 4, plainBody [⟨2, 0⟩] [] (some [⟨2, 0⟩]), some [], none, none, none, some false⟩]

theorem chain_noTotalOverflows (after : FullState Unit Unit) (count : Nat)
    (hpot : after.rest.depositPot.lovelace < 2 ^ 64)
    (hfees : ((decodedChain.take count).map fun tx =>
      (transactionFee .babbage tenAdaState.multiEraUtxo tx).toNat).sum < 2 ^ 64) :
    NoTotalOverflows zeroCrypto chainCodec openChecks tenAdaState after
      (chainBlock (chainTxs.take count)) none (decodedChain.take count) where
  fees := hfees
  balances := by decide +kernel
  potBefore := by decide +kernel
  potAfter := hpot
  transactions := by
    apply along_of_forall
    intro tx htx staged
    apply txFits_of_plain
    · simp [roundContext, chainBlock]
    · have hmem : tx.1 ∈ decodedChain := List.mem_of_mem_take (List.fst_mem_of_mem_zipIdx htx)
      rcases List.mem_cons.mp hmem with hfirst | hlater
      · rw [roundContext, hfirst]
        rfl
      · rw [roundContext, List.mem_singleton.mp hlater]
        rfl

/-- The criterion at a block with the payment alone. -/
theorem payment_conservesAda_iff :
    totalAda tenAdaState = totalAda (afterChain (single ⟨2, 0⟩ (adaOutput 9800000))) +
        (totalTransactionFeesWithUtxo .babbage tenAdaState.multiEraUtxo
          (decodedChain.take 1)).toNat ↔
      blockDrift zeroCrypto chainCodec openChecks tenAdaState (chainBlock (chainTxs.take 1)) none
        (decodedChain.take 1) = 0 :=
  conservesAda_iff zeroCrypto chainCodec openChecks tenAdaState _ (chainBlock (chainTxs.take 1))
    none (decodedChain.take 1) rfl rfl
    (chain_noTotalOverflows _ 1 (by decide +kernel) (by decide +kernel))

/-- The second transaction loses its collateral, which the first one has just made and which the
set before the block does not have: nothing is credited for it and 9.8 ada are gone. -/
theorem chainedCollateral_destroys_ada :
    chainTxs.mapM (decodeTx chainCodec .babbage) = .ok decodedChain ∧
      applyBlockValidated zeroCrypto chainCodec (ledgerRules openChecks) tenAdaState
        (chainBlock chainTxs) none = .ok (afterChain ∅) ∧
      NoTotalOverflows zeroCrypto chainCodec openChecks tenAdaState (afterChain ∅)
        (chainBlock chainTxs) none decodedChain ∧
      totalAda tenAdaState = 10000000 ∧
      totalAda (afterChain ∅) +
        (totalTransactionFeesWithUtxo .babbage tenAdaState.multiEraUtxo decodedChain).toNat =
          200000 :=
  ⟨rfl, rfl, chain_noTotalOverflows _ 2 (by decide +kernel) (by decide +kernel),
    by decide +kernel, by decide +kernel⟩

end Yggdrasil.Ledger
