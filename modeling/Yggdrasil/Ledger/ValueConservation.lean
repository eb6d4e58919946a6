import Yggdrasil.Ledger.EraTransitions

/-!
# Lovelace and native tokens across a transaction

What an accepted transaction does to the totals of the UTxO set, over the integers.

* Lovelace: from Shelley on the set changes by exactly what fee, deposits, donation,
  withdrawals and refunds say.  A Byron transaction may list an input twice, and its check
  counts the lovelace twice; the set loses the entry once.
* Tokens: the sums of the check wrap at `2 ^ 64` and the mint adjustment saturates, so the
  balance over the integers holds exactly when neither changes the outcome.
-/

namespace Yggdrasil.Ledger

open Library KeyedMap

/-! ## Checked sums -/

theorem checkedAdd_toNat {site : String} {a b sum : UInt64}
    (hsum : checkedAdd site a b = .ok sum) : sum.toNat = a.toNat + b.toNat := by
  unfold checkedAdd at hsum
  split at hsum
  · rename_i hfits
    cases hsum
    rw [UInt64.toNat_add, Nat.mod_eq_of_lt hfits]
  · cases hsum

theorem checkedAdd3_toNat {site : String} {a b c sum : UInt64}
    (hsum : checkedAdd3 site a b c = .ok sum) :
    sum.toNat = a.toNat + b.toNat + c.toNat := by
  obtain ⟨first, hfirst, hrest⟩ := bind_eq_ok.mp hsum
  rw [checkedAdd_toNat hrest, checkedAdd_toNat hfirst]

/-- A loop whose rounds add amounts without wrapping returns their sum. -/
theorem foldlM_toNat {Item : Type} {step : UInt64 → Item → Result UInt64} (amount : Item → Nat)
    (hstep : ∀ sum item next, step sum item = .ok next → next.toNat = sum.toNat + amount item)
    {items : List Item} {start total : UInt64} (hrun : items.foldlM step start = .ok total) :
    total.toNat = start.toNat + (items.map amount).sum := by
  induction items generalizing start with
  | nil =>
    cases hrun
    simp
  | cons item rest ih =>
    rw [List.foldlM_cons] at hrun
    obtain ⟨next, hnext, hrest⟩ := bind_eq_ok.mp hrun
    rw [ih hrest, hstep start item next hnext, List.map_cons, List.sum_cons, add_assoc]

theorem checkedSumCoins_toNat {site : String} {coins : List UInt64} {total : UInt64}
    (hsum : checkedSumCoins site coins = .ok total) :
    total.toNat = (coins.map UInt64.toNat).sum := by
  have htotal := @foldlM_toNat _ (checkedAdd site) UInt64.toNat (fun _ _ _ => checkedAdd_toNat)
    _ _ _ hsum
  rwa [UInt64.toNat_zero, zero_add] at htotal

def totalLovelace (utxo : MultiEraUtxo) : Nat := total MultiEraTxOut.lovelaceNat utxo

/-- The lovelace an input names. -/
def lovelaceAt (utxo : MultiEraUtxo) (input : ShelleyTxIn) : Nat :=
  amountAt MultiEraTxOut.lovelaceNat utxo input

variable {inputs : List ShelleyTxIn} (measure : MultiEraTxOut → Nat) {txId : TxId}
  {utxo after : MultiEraUtxo} {outputs : List MultiEraTxOut}

/-- The consumed sum counts every listed input, repetitions included. -/
theorem sumConsumedCoin_toNat {total : UInt64} (hsum : sumConsumedCoin utxo inputs = .ok total) :
    total.toNat = (inputs.map (lovelaceAt utxo)).sum := by
  have htotal := foldlM_toNat (lovelaceAt utxo) ?_ hsum
  · rwa [UInt64.toNat_zero, zero_add] at htotal
  · intro sum input next hnext
    cases hlookup : utxo.lookup input with
    | none =>
      rw [hlookup] at hnext
      cases hnext
    | some entry =>
      rw [hlookup] at hnext
      have hamount : lovelaceAt utxo input = entry.coin.toNat := by
        simp [lovelaceAt, amountAt, hlookup, MultiEraTxOut.lovelaceNat]
      rw [checkedAdd_toNat hnext, hamount]

theorem checkCoinPreservation_toNat {consumed produced fee : UInt64}
    (hcheck : checkCoinPreservation consumed produced fee = .ok ()) :
    consumed.toNat = produced.toNat + fee.toNat := by
  obtain ⟨sum, hsum, hequal⟩ := bind_eq_ok.mp hcheck
  have hsame : consumed = sum := not_not.mp (rejectIf_eq_ok.mp hequal)
  rw [hsame, checkedAdd_toNat hsum]

/-! ## Outputs behind a fresh id -/

theorem nodup_outputKeys (txId : TxId) (hcount : outputs.length ≤ 65536) :
    (outputs.zipIdx.map fun output => (⟨txId, .ofNat output.2⟩ : ShelleyTxIn)).Nodup := by
  have hkeys : (outputs.zipIdx.map fun output => (⟨txId, .ofNat output.2⟩ : ShelleyTxIn)) =
      (List.range outputs.length).map fun place => ⟨txId, .ofNat place⟩ := by
    rw [List.range_eq_range', ← List.zipIdx_map_snd, List.map_map]
    rfl
  rw [hkeys]
  refine List.Nodup.map_on ?_ List.nodup_range
  intro a ha b hb hsame
  have hplaces := congrArg (fun input => input.index.toNat) hsame
  simp only [UInt16.toNat_ofNat'] at hplaces
  rw [List.mem_range] at ha hb
  omega

/-- Outputs with the keys they get. -/
def outputEntries (txId : TxId) (outputs : List MultiEraTxOut) :
    List (ShelleyTxIn × MultiEraTxOut) :=
  outputs.zipIdx.map fun output => (⟨txId, .ofNat output.2⟩, output.1)

theorem insertOutputs_eq_insertAll (utxo : MultiEraUtxo) (txId : TxId)
    (outputs : List MultiEraTxOut) :
    insertOutputs utxo txId outputs = insertAll (outputEntries txId outputs) utxo := by
  unfold insertOutputs insertAll outputEntries
  rw [List.foldl_map]

theorem sum_outputEntries (txId : TxId) (outputs : List MultiEraTxOut) :
    ((outputEntries txId outputs).map fun entry => measure entry.2).sum =
      (outputs.map measure).sum := by
  unfold outputEntries
  conv_rhs => rw [← List.zipIdx_map_fst 0 outputs]
  rw [List.map_map, List.map_map]
  rfl

theorem total_insertOutputs (hcount : outputs.length ≤ 65536)
    (hfresh : ∀ index, (⟨txId, index⟩ : ShelleyTxIn) ∉ utxo) :
    total measure (insertOutputs utxo txId outputs) =
      total measure utxo + (outputs.map measure).sum := by
  rw [insertOutputs_eq_insertAll, total_insertAll, sum_outputEntries]
  · unfold outputEntries
    rw [List.map_map]
    exact nodup_outputKeys txId hcount
  · intro entry hentry
    obtain ⟨output, -, rfl⟩ := List.mem_map.mp hentry
    exact hfresh _

theorem total_transition (inputs : List ShelleyTxIn) (hfresh : FreshTxId utxo txId)
    (hcount : outputs.length ≤ 65536) :
    total measure (insertOutputs (eraseAll inputs utxo) txId outputs) +
        ∑ input ∈ inputs.toFinset, amountAt measure utxo input =
      total measure utxo + (outputs.map measure).sum := by
  have hspent := total_eraseAll measure inputs utxo
  rw [total_insertOutputs measure hcount (notMem_eraseAll_of_fresh hfresh inputs)]
  omega

/-! ## Lovelace -/

/-- What the balance check of an era since Shelley leaves behind. -/
structure CoinBalance (utxo : MultiEraUtxo) (txId : TxId) (inputs : List ShelleyTxIn)
    (outputs : List MultiEraTxOut) (gains costs : Nat) (after : MultiEraUtxo) : Prop where
  distinct : inputs.Nodup
  balanced : (inputs.map (lovelaceAt utxo)).sum + gains =
    (outputs.map MultiEraTxOut.lovelaceNat).sum + costs
  after_eq : after = insertOutputs (eraseAll inputs utxo) txId outputs

theorem map_coin_toNat (outputs : List MultiEraTxOut) :
    (outputs.map (·.coin)).map UInt64.toNat = outputs.map MultiEraTxOut.lovelaceNat := by
  rw [List.map_map]
  rfl

variable {withdrawalTotal deposits refunds : UInt64}

theorem applyPreScriptTx_balance {label : String} {interval assets : Result Unit} {fee : UInt64}
    (happly : applyPreScriptTx label interval assets utxo txId inputs outputs fee withdrawalTotal
      deposits refunds = .ok after) :
    CoinBalance utxo txId inputs outputs (withdrawalTotal.toNat + refunds.toNat)
      (fee.toNat + deposits.toNat) after := by
  unfold applyPreScriptTx at happly
  simp only [bind_eq_ok, rejectIf_eq_ok, not_not] at happly
  obtain ⟨_, _, _, hnodup, _, _, consumed, hconsumed, produced, hproduced, available, havailable,
    spent, hspent, ⟨⟩, hcheck, _, _, hreturn⟩ := happly
  cases hreturn
  refine ⟨hnodup, ?_, rfl⟩
  have hbalance := checkCoinPreservation_toNat hcheck
  have hleft := checkedAdd3_toNat havailable
  have hright := checkedAdd_toNat hspent
  have hinputs := sumConsumedCoin_toNat hconsumed
  have houtputs := checkedSumCoins_toNat hproduced
  rw [map_coin_toNat] at houtputs
  omega

variable {Extra : Type}

theorem balanceSides_toNat {era : ScriptEra} {body : TxBody Extra} {consumed : UInt64}
    {sides : UInt64 × UInt64}
    (hsides : balanceSides era body consumed withdrawalTotal deposits refunds = .ok sides) :
    sides.1.toNat = consumed.toNat + withdrawalTotal.toNat + refunds.toNat ∧
      sides.2.toNat =
        body.fee.toNat + deposits.toNat + ((AssetTx.script era body).donation).toNat := by
  cases era with
  | conway =>
    obtain ⟨spent, hspent, hrest⟩ := bind_eq_ok.mp hsides
    obtain ⟨available, havailable, hreturn⟩ := bind_eq_ok.mp hrest
    cases hreturn
    exact ⟨checkedAdd3_toNat havailable, checkedAdd3_toNat hspent⟩
  | alonzo | babbage =>
    obtain ⟨available, havailable, hrest⟩ := bind_eq_ok.mp hsides
    obtain ⟨spent, hspent, hreturn⟩ := bind_eq_ok.mp hrest
    cases hreturn
    exact ⟨checkedAdd3_toNat havailable, checkedAdd_toNat hspent⟩

variable {currentSlot : SlotNo}

/-- What an accepted transaction of an era with scripts passed. -/
theorem applyTxWithdrawals_spec {era : ScriptEra} {body : TxBody Extra}
    (happly : applyTxWithdrawals era utxo txId body currentSlot withdrawalTotal deposits refunds =
      .ok after) :
    CoinBalance utxo txId body.inputs body.outputs (withdrawalTotal.toNat + refunds.toNat)
        (body.fee.toNat + deposits.toNat + ((AssetTx.script era body).donation).toNat) after ∧
      checkMultiAssetPreservation (consumedBundles utxo body.inputs)
        (body.outputs.map fun output => output.value.assets) body.mint = .ok () := by
  unfold applyTxWithdrawals at happly
  simp only [bind_eq_ok, rejectIf_eq_ok, not_not] at happly
  obtain ⟨_, _, _, hnodup, _, _, consumed, hconsumed, produced, hproduced, sides, hsides, ⟨⟩,
    hcheck, _, _, ⟨⟩, hassets, hreturn⟩ := happly
  cases hreturn
  refine ⟨⟨hnodup, ?_, rfl⟩, hassets⟩
  have hbalance := checkCoinPreservation_toNat hcheck
  obtain ⟨hleft, hright⟩ := balanceSides_toNat hsides
  have hinputs := sumConsumedCoin_toNat hconsumed
  have houtputs := checkedSumCoins_toNat hproduced
  rw [map_coin_toNat] at houtputs
  omega

theorem CoinBalance.totalLovelace_eq {gains costs : Nat}
    (hbalance : CoinBalance utxo txId inputs outputs gains costs after)
    (hfresh : FreshTxId utxo txId) (hcount : outputs.length ≤ 65536) :
    totalLovelace after + costs = totalLovelace utxo + gains := by
  have htransition := total_transition MultiEraTxOut.lovelaceNat inputs hfresh hcount
  rw [List.sum_toFinset _ hbalance.distinct, ← hbalance.after_eq] at htransition
  have hbalanced := hbalance.balanced
  unfold totalLovelace
  unfold lovelaceAt at hbalanced
  omega

theorem AssetTx.apply_balance {tx : AssetTx Extra}
    (happly : tx.apply utxo txId currentSlot withdrawalTotal deposits refunds = .ok after) :
    CoinBalance utxo txId tx.inputs tx.outputs (withdrawalTotal.toNat + refunds.toNat)
      (tx.fee.toNat + deposits.toNat + tx.donation.toNat) after := by
  cases tx with
  | mary body => exact applyPreScriptTx_balance happly
  | script era body => exact (applyTxWithdrawals_spec happly).1

namespace EraTx

variable {Extra : Type}

/-- A Byron transaction does not add lovelace; a later one adds and takes exactly what
withdrawals, refunds, fee, deposits and donation say. -/
def CreatesNoLovelace (utxo after : MultiEraUtxo) (withdrawalTotal deposits refunds : UInt64) :
    EraTx Extra → Prop
  | byron _ => totalLovelace after ≤ totalLovelace utxo
  | shelley body =>
    totalLovelace after + (body.fee.toNat + deposits.toNat) =
      totalLovelace utxo + (withdrawalTotal.toNat + refunds.toNat)
  | allegra body =>
    totalLovelace after + (body.fee.toNat + deposits.toNat) =
      totalLovelace utxo + (withdrawalTotal.toNat + refunds.toNat)
  | assets tx =>
    totalLovelace after + (tx.fee.toNat + deposits.toNat + tx.donation.toNat) =
      totalLovelace utxo + (withdrawalTotal.toNat + refunds.toNat)

/-- The entries a Byron transaction spends, each counted once, cover its outputs. -/
def InputsCoverOutputs (utxo : MultiEraUtxo) : EraTx Extra → Prop
  | byron tx =>
    (tx.outputs.map fun output => output.amount.toNat).sum ≤
      ∑ input ∈ tx.shelleyInputs.toFinset, lovelaceAt utxo input
  | _ => True

end EraTx

theorem totalLovelace_applyByronTxWithId {tx : ByronTx} (hfresh : FreshTxId utxo txId)
    (hcount : tx.outputs.length ≤ 65536) (happly : applyByronTxWithId utxo txId tx = .ok after) :
    totalLovelace after + ∑ input ∈ tx.shelleyInputs.toFinset, lovelaceAt utxo input =
      totalLovelace utxo + (tx.outputs.map fun output => output.amount.toNat).sum := by
  unfold applyByronTxWithId at happly
  simp only [bind_eq_ok] at happly
  obtain ⟨_, _, _, _, _, _, _, _, _, _, hreturn⟩ := happly
  cases hreturn
  have hcount' : (tx.outputs.map (·.toShelley)).length ≤ 65536 := by simpa using hcount
  have htransition := total_transition MultiEraTxOut.lovelaceNat tx.shelleyInputs hfresh hcount'
  rw [List.map_map] at htransition
  exact htransition

/-- **No transaction creates lovelace, except a Byron one that spends an entry twice.**  For
every set and every accepted transaction with a fresh id and places for its outputs, lovelace is
kept as its era says exactly when the distinct entries it spends cover its outputs; from Shelley
on that is no condition. -/
theorem createsNoLovelace_iff {Extra : Type} (tx : EraTx Extra) (utxo after : MultiEraUtxo)
    (txId : TxId) (currentSlot : SlotNo) (withdrawalTotal deposits refunds : UInt64)
    (hfresh : FreshTxId utxo txId) (hcount : tx.outputs.length ≤ 65536)
    (happly : tx.apply utxo txId currentSlot withdrawalTotal deposits refunds = .ok after) :
    tx.CreatesNoLovelace utxo after withdrawalTotal deposits refunds ↔
      tx.InputsCoverOutputs utxo := by
  cases tx with
  | byron tx =>
    have hplaces : tx.outputs.length ≤ 65536 := by simpa [EraTx.outputs] using hcount
    have hbyron := totalLovelace_applyByronTxWithId hfresh hplaces happly
    unfold EraTx.CreatesNoLovelace EraTx.InputsCoverOutputs
    omega
  | shelley body | allegra body =>
    have hbalance := applyPreScriptTx_balance happly
    exact iff_of_true (hbalance.totalLovelace_eq hfresh hcount) trivial
  | assets tx =>
    have hbalance := AssetTx.apply_balance happly
    exact iff_of_true (hbalance.totalLovelace_eq hfresh hcount) trivial

def fiveAdaUtxo : MultiEraUtxo := single ⟨1, 0⟩ (.shelley [0x82] 5000000)

/-- A Byron transaction that pays one output from the listed places of transaction one. -/
def byronPayment (places : List UInt32) (amount : UInt64) : EraTx Unit :=
  .byron ⟨places.map fun place => ⟨1, place⟩, [⟨[0x82], amount⟩]⟩

/-- The criterion at a payment of four ada. -/
theorem fourAda_createsNoLovelace_iff :
    (byronPayment [0] 4000000).CreatesNoLovelace fiveAdaUtxo
        (single ⟨2, 0⟩ (.shelley [0x82] 4000000)) 0 0 0 ↔
      (byronPayment [0] 4000000).InputsCoverOutputs fiveAdaUtxo :=
  createsNoLovelace_iff (byronPayment [0] 4000000) fiveAdaUtxo _ 2 0 0 0 0
    (by decide +kernel) (by decide) rfl

/-- Five ada listed twice pay ten: the transaction is accepted and the set has gained five. -/
theorem doubleSpend_creates_lovelace :
    FreshTxId fiveAdaUtxo 2 ∧ (byronPayment [0, 0] 10000000).outputs.length ≤ 65536 ∧
      ∃ after, (byronPayment [0, 0] 10000000).apply fiveAdaUtxo 2 0 0 0 0 = .ok after ∧
        ¬ (byronPayment [0, 0] 10000000).CreatesNoLovelace fiveAdaUtxo after 0 0 0 := by
  refine ⟨by decide +kernel, by decide, single ⟨2, 0⟩ _,
    rfl, ?_⟩
  change ¬ totalLovelace _ ≤ totalLovelace _
  decide +kernel

/-- Places `0` and `65536` name one entry after the cut to 16 bits. -/
example : ((byronPayment [0, 65536] 10000000).apply fiveAdaUtxo 2 0 0 0 0).isOk = true := by
  decide +kernel

/-! ## Native tokens -/

def bundleQuantity (policyId : Hash28) (assetName : Bytes) (bundle : MultiAsset) : Nat :=
  (((bundle.lookup policyId).bind fun names => names.lookup assetName).map UInt64.toNat).getD 0

/-- The sum of the check is the sum over the integers modulo `2 ^ 64`. -/
theorem sumMultiAsset_toNat (bundles : List MultiAsset) (policyId : Hash28) (assetName : Bytes) :
    (sumMultiAsset bundles policyId assetName).toNat =
      (bundles.map (bundleQuantity policyId assetName)).sum % 2 ^ 64 := by
  have hwords := toNat_foldl_add (bundles.map fun bundle =>
    ((bundle.lookup policyId).bind fun names => names.lookup assetName).getD 0) 0
  rw [List.foldl_map, List.map_map, UInt64.toNat_zero, zero_add] at hwords
  refine hwords.trans (congrArg (List.sum · % 2 ^ 64) (List.map_congr_left fun bundle _ => ?_))
  exact (Option.getD_map _ 0 _).symm

/-- The signed quantity one asset has in a mint field. -/
def mintQuantity (mint : Option MintAsset) (policyId : Hash28) (assetName : Bytes) : Int :=
  (((mint.bind fun minted => minted.lookup policyId).bind fun names =>
    names.lookup assetName).map Int64.toInt).getD 0

/-- Minting and burning clamp the integer sum to a word. -/
theorem toNat_applyMint (current : UInt64) (quantity : Int64) :
    ((applyMint current quantity).toNat : Int) =
      max 0 (min (current.toNat + quantity.toInt) (2 ^ 64 - 1)) := by
  have hlower := quantity.le_toInt
  have hupper := quantity.toInt_lt
  have hword := current.toNat_lt
  unfold applyMint
  split
  · have hamount : (UInt64.ofNat quantity.toInt.toNat).toNat = quantity.toInt.toNat := by
      rw [UInt64.toNat_ofNat', Nat.mod_eq_of_lt (by omega)]
    rw [toNat_saturatingAdd]
    omega
  · have hamount : (UInt64.ofNat quantity.toInt.natAbs).toNat = quantity.toInt.natAbs := by
      rw [UInt64.toNat_ofNat', Nat.mod_eq_of_lt (by omega)]
    rw [toNat_saturatingSub]
    omega

theorem toNat_expectedQuantity (consumed : List MultiAsset) (mint : Option MintAsset)
    (policyId : Hash28) (assetName : Bytes) :
    ((expectedQuantity consumed mint policyId assetName).toNat : Int) =
      max 0 (min ((sumMultiAsset consumed policyId assetName).toNat +
        mintQuantity mint policyId assetName) (2 ^ 64 - 1)) := by
  have hword := (sumMultiAsset consumed policyId assetName).toNat_lt
  unfold expectedQuantity mintQuantity
  split
  · rename_i quantity hfound
    rw [hfound, toNat_applyMint]
    rfl
  · rename_i hnone
    rw [hnone]
    simp only [Option.map_none, Option.getD_none]
    omega

variable {policyId : Hash28} {assetName : Bytes}

theorem mem_assetKeys_of_lookup {Quantity : Type}
    {bundle : KeyedMap Hash28 (KeyedMap Bytes Quantity)} {policyId : Hash28} {assetName : Bytes}
    {quantity : Quantity}
    (hlookup : ((bundle.lookup policyId).bind fun names => names.lookup assetName) =
      some quantity) : (policyId, assetName) ∈ assetKeys bundle := by
  obtain ⟨names, hnames, hquantity⟩ := Option.bind_eq_some_iff.mp hlookup
  refine List.mem_flatMap.mpr ⟨⟨policyId, names⟩, AList.mem_lookup_iff.mp hnames, ?_⟩
  exact List.mem_map.mpr ⟨⟨assetName, quantity⟩, AList.mem_lookup_iff.mp hquantity, rfl⟩

theorem sumMultiAsset_of_notMem {bundles : List MultiAsset}
    (hunnamed : (policyId, assetName) ∉ bundles.flatMap assetKeys) :
    sumMultiAsset bundles policyId assetName = 0 := by
  refine List.foldlRecOn (motive := (· = 0)) _ _ rfl fun total htotal bundle hbundle => ?_
  have hnone : (bundle.lookup policyId).bind (fun names => names.lookup assetName) = none := by
    rw [Option.eq_none_iff_forall_ne_some]
    intro quantity hquantity
    exact hunnamed (List.mem_flatMap_of_mem hbundle (mem_assetKeys_of_lookup hquantity))
  rw [htotal, hnone]
  rfl

/-- The check compares every asset, also those nobody names. -/
theorem checkMultiAssetPreservation_eq_ok {consumed produced : List MultiAsset}
    {mint : Option MintAsset}
    (hcheck : checkMultiAssetPreservation consumed produced mint = .ok ())
    (policyId : Hash28) (assetName : Bytes) :
    expectedQuantity consumed mint policyId assetName =
      sumMultiAsset produced policyId assetName := by
  have heach := forM_eq_ok.mp hcheck
  by_cases hnamed : (policyId, assetName) ∈
      (consumed ++ produced).flatMap assetKeys ++ mint.toList.flatMap assetKeys
  · exact not_not.mp (rejectIf_eq_ok.mp (heach _ hnamed))
  · -- nobody names the asset: both sums are zero and the mint field is silent
    rw [List.mem_append, List.flatMap_append, List.mem_append, not_or, not_or] at hnamed
    have hmint : ((mint.bind fun minted => minted.lookup policyId).bind fun names =>
        names.lookup assetName) = none := by
      rw [Option.eq_none_iff_forall_ne_some]
      intro quantity hquantity
      cases mint with
      | none => cases hquantity
      | some minted => exact hnamed.2 (by simpa using mem_assetKeys_of_lookup hquantity)
    unfold expectedQuantity
    rw [hmint, sumMultiAsset_of_notMem hnamed.1.1, sumMultiAsset_of_notMem hnamed.1.2]

/-- The quantities of the consumed entries, summed along the inputs. -/
theorem sum_consumedBundles (utxo : MultiEraUtxo) (inputs : List ShelleyTxIn)
    (policyId : Hash28) (assetName : Bytes) :
    ((consumedBundles utxo inputs).map (bundleQuantity policyId assetName)).sum =
      (inputs.map (amountAt (MultiEraTxOut.quantity policyId assetName) utxo)).sum := by
  unfold consumedBundles
  induction inputs with
  | nil => rfl
  | cons input rest ih =>
    rw [List.map_cons, List.sum_cons, ← ih]
    cases hlookup : utxo.lookup input with
    | none =>
      rw [List.filterMap_cons]
      simp [amountAt, hlookup]
    | some entry =>
      rw [List.filterMap_cons, hlookup, List.map_cons]
      simp [amountAt, hlookup, MultiEraTxOut.quantity, Value.quantity,
        bundleQuantity]

namespace AssetTx

variable {Extra : Type}

/-- The integer quantity of an asset in the entries the transaction spends. -/
def consumed (utxo : MultiEraUtxo) (tx : AssetTx Extra) (policyId : Hash28) (assetName : Bytes) :
    Nat :=
  (tx.inputs.map (amountAt (MultiEraTxOut.quantity policyId assetName) utxo)).sum

/-- The integer quantity of an asset in the outputs. -/
def produced (tx : AssetTx Extra) (policyId : Hash28) (assetName : Bytes) : Nat :=
  (tx.outputs.map (MultiEraTxOut.quantity policyId assetName)).sum

/-- Every asset balances over the integers. -/
def ConservesTokens (utxo : MultiEraUtxo) (tx : AssetTx Extra) : Prop :=
  ∀ policyId assetName,
    (tx.consumed utxo policyId assetName : Int) + mintQuantity tx.mint policyId assetName =
      tx.produced policyId assetName

/-- For every asset the outputs wrap as often as the inputs, and the mint adjustment of the
wrapped sum stays a word. -/
def SumsExact (utxo : MultiEraUtxo) (tx : AssetTx Extra) : Prop :=
  ∀ policyId assetName,
    tx.consumed utxo policyId assetName / 2 ^ 64 = tx.produced policyId assetName / 2 ^ 64 ∧
      0 ≤ ((tx.consumed utxo policyId assetName % 2 ^ 64 : Nat) : Int) +
        mintQuantity tx.mint policyId assetName ∧
      ((tx.consumed utxo policyId assetName % 2 ^ 64 : Nat) : Int) +
        mintQuantity tx.mint policyId assetName < 2 ^ 64

theorem apply_tokens {tx : AssetTx Extra} {currentSlot : SlotNo}
    {withdrawalTotal deposits refunds : UInt64}
    (happly : tx.apply utxo txId currentSlot withdrawalTotal deposits refunds = .ok after)
    (policyId : Hash28) (assetName : Bytes) :
    max 0 (min (((tx.consumed utxo policyId assetName % 2 ^ 64 : Nat) : Int) +
        mintQuantity tx.mint policyId assetName) (2 ^ 64 - 1)) =
      ((tx.produced policyId assetName % 2 ^ 64 : Nat) : Int) := by
  have hcheck : checkMultiAssetPreservation (consumedBundles utxo tx.inputs)
      (tx.outputs.map fun output => output.value.assets) tx.mint = .ok () := by
    cases tx with
    | mary body =>
      unfold AssetTx.apply applyMaryTxWithdrawals applyPreScriptTx at happly
      simp only [bind_eq_ok] at happly
      obtain ⟨_, _, _, _, _, _, _, _, _, _, _, _, _, _, _, _, ⟨⟩, hassets, _⟩ := happly
      obtain ⟨_, _, hpreserved⟩ := bind_eq_ok.mp hassets
      unfold AssetTx.outputs
      rw [List.map_map]
      exact hpreserved
    | script era body => exact (applyTxWithdrawals_spec happly).2
  have hequal := checkMultiAssetPreservation_eq_ok hcheck policyId assetName
  have hexpected := toNat_expectedQuantity (consumedBundles utxo tx.inputs) tx.mint policyId
    assetName
  have hproduced : (tx.outputs.map fun output => output.value.assets).map
      (bundleQuantity policyId assetName) =
        tx.outputs.map (MultiEraTxOut.quantity policyId assetName) := by
    rw [List.map_map]
    rfl
  rw [hequal, sumMultiAsset_toNat, sumMultiAsset_toNat, sum_consumedBundles, hproduced]
    at hexpected
  exact hexpected.symm

end AssetTx

/-- **When native tokens are conserved.**  For every set and every accepted transaction since
Mary, all assets balance over the integers exactly when no sum of the check wraps more often on
one side than on the other and no mint adjustment saturates. -/
theorem conservesTokens_iff {Extra : Type} (tx : AssetTx Extra) (utxo after : MultiEraUtxo)
    (txId : TxId) (currentSlot : SlotNo) (withdrawalTotal deposits refunds : UInt64)
    (happly : tx.apply utxo txId currentSlot withdrawalTotal deposits refunds = .ok after) :
    tx.ConservesTokens utxo ↔ tx.SumsExact utxo := by
  refine forall₂_congr fun policyId assetName => ?_
  have htokens := AssetTx.apply_tokens happly policyId assetName
  -- a mint quantity is a signed word, so a saturated sum is never off by a multiple of `2 ^ 64`
  have hmint : -2 ^ 63 ≤ mintQuantity tx.mint policyId assetName ∧
      mintQuantity tx.mint policyId assetName < 2 ^ 63 := by
    unfold mintQuantity
    cases (tx.mint.bind fun minted => minted.lookup policyId).bind fun names =>
        names.lookup assetName with
    | none => simp
    | some quantity => exact ⟨quantity.le_toInt, quantity.toInt_lt⟩
  omega

/-- A token that no policy has minted. -/
def unmintedOutput (quantity : UInt64) : MaryTxOut :=
  ⟨0x61 :: List.replicate 28 0, .coinAndAssets 2000000 (token quantity)⟩

/-- A Mary transaction that spends five ada into two outputs with tokens and a fee of one. -/
def tokenPayment (first second : UInt64) (mint : Option MintAsset) : AssetTx Unit :=
  .mary ⟨[⟨1, 0⟩], [unmintedOutput first, unmintedOutput second], 1000000, none, none, mint⟩

/-- The criterion at a transaction that mints what its outputs hold. -/
theorem minted_conservesTokens_iff :
    (tokenPayment 3 4 (some (single 7 (single [0x54] 7)))).ConservesTokens
        fiveAdaUtxo ↔
      (tokenPayment 3 4 (some (single 7 (single [0x54] 7)))).SumsExact
        fiveAdaUtxo :=
  conservesTokens_iff _ fiveAdaUtxo _ 2 0 0 0 0 rfl

/-- Twice `2 ^ 63` tokens wrap to none: the transaction mints `2 ^ 64` tokens from nothing. -/
theorem wrapped_tokens_minted :
    ((tokenPayment (2 ^ 63) (2 ^ 63) none).apply fiveAdaUtxo 2 0 0 0 0).isOk = true ∧
      ¬ (tokenPayment (2 ^ 63) (2 ^ 63) none).ConservesTokens fiveAdaUtxo := by
  refine ⟨by decide +kernel, fun hconserves => ?_⟩
  have htoken := hconserves 7 [0x54]
  revert htoken
  decide +kernel

/-- Burning tokens that are not there is accepted as well. -/
example :
    ((tokenPayment 0 0 (some (single 7 (single [0x54] (-5))))).apply fiveAdaUtxo
      2 0 0 0 0).isOk = true := by
  decide +kernel

end Yggdrasil.Ledger
