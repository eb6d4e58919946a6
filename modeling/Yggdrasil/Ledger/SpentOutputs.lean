import Yggdrasil.Ledger.BlockConservation
import Yggdrasil.Ledger.CallFrame

/-!
# Outputs that a commit has spent

A transaction takes an output out of the set that its era works on and puts in outputs of its own
id only.  So when ids are new, what the first transaction of a call has spent is still missing when
the call commits (`lost_of_stage`), and no later part of the call brings it back.
-/

namespace Yggdrasil.Ledger

open Library KeyedMap

section

variable {Out : Type} {utxo after : KeyedMap ShelleyTxIn Out} {inputs : List ShelleyTxIn}
  {id : TxId}

/-- Nothing came into the set but outputs of the given transaction. -/
def AddsOnly (id : TxId) (utxo after : KeyedMap ShelleyTxIn Out) : Prop :=
  ∀ key ∈ after, key.transactionId ≠ id → key ∈ utxo

/-- An output of another transaction has left the set. -/
def Consumes (id : TxId) (utxo after : KeyedMap ShelleyTxIn Out) : Prop :=
  ∃ key ∈ utxo, key.transactionId ≠ id → key ∉ after

theorem mem_insertAll (entries : List (ShelleyTxIn × Out)) (utxo : KeyedMap ShelleyTxIn Out)
    (key : ShelleyTxIn) :
    key ∈ insertAll entries utxo ↔ key ∈ entries.map Prod.fst ∨ key ∈ utxo := by
  induction entries generalizing utxo with
  | nil => simp [insertAll]
  | cons entry rest ih =>
    have hstep : insertAll (entry :: rest) utxo = insertAll rest (utxo.insert entry.1 entry.2) :=
      rfl
    rw [hstep, ih, AList.mem_insert, List.map_cons, List.mem_cons]
    tauto

theorem mem_eraseAll (key : ShelleyTxIn) :
    key ∈ eraseAll inputs utxo ↔ key ∉ inputs ∧ key ∈ utxo := by
  rw [← AList.lookup_isSome, lookup_eraseAll, ← AList.lookup_isSome]
  split <;> simp [*]

theorem addsOnly_of_entries {entries : List (ShelleyTxIn × Out)}
    (hentries : ∀ entry ∈ entries, entry.1.transactionId = id) :
    AddsOnly id utxo (insertAll entries (eraseAll inputs utxo)) := by
  intro key hkey hother
  rcases (mem_insertAll _ _ _).mp hkey with hentry | hkept
  · obtain ⟨entry, hmem, rfl⟩ := List.mem_map.mp hentry
    exact absurd (hentries entry hmem) hother
  · exact ((mem_eraseAll _).mp hkept).2

theorem consumes_of_entries {entries : List (ShelleyTxIn × Out)}
    (hentries : ∀ entry ∈ entries, entry.1.transactionId = id) {input : ShelleyTxIn}
    (hinput : input ∈ inputs) (hheld : input ∈ utxo) :
    Consumes id utxo (insertAll entries (eraseAll inputs utxo)) := by
  refine ⟨input, hheld, fun hother hkey => ?_⟩
  rcases (mem_insertAll _ _ _).mp hkey with hentry | hkept
  · obtain ⟨entry, hmem, rfl⟩ := List.mem_map.mp hentry
    exact hother (hentries entry hmem)
  · exact ((mem_eraseAll _).mp hkept).1 hinput

/-- What the rounds of a loop did not bring was there before. -/
theorem foldlM_addsOnly {Error State Item : Type} {step : State → Item → Except Error State}
    (set : State → KeyedMap ShelleyTxIn Out) (itemId : Item → TxId)
    (hstep : ∀ state item next, step state item = .ok next →
      AddsOnly (itemId item) (set state) (set next))
    {items : List Item} {state final : State} (hrun : items.foldlM step state = .ok final)
    {key : ShelleyTxIn} (hkey : key ∈ set final)
    (hother : ∀ item ∈ items, key.transactionId ≠ itemId item) : key ∈ set state := by
  induction items generalizing state with
  | nil =>
    cases hrun
    exact hkey
  | cons item rest ih =>
    obtain ⟨next, hnext, hrest⟩ := foldlM_cons_eq_ok.mp hrun
    obtain ⟨hfirst, hlater⟩ := List.forall_mem_cons.mp hother
    exact hstep state item next hnext key (ih hrest hlater) hfirst

/-- What the first round consumed is missing after the loop. -/
theorem foldlM_consumes {Error State Item : Type} {step : State → Item → Except Error State}
    (set : State → KeyedMap ShelleyTxIn Out) (itemId : Item → TxId)
    (hstep : ∀ state item next, step state item = .ok next →
      AddsOnly (itemId item) (set state) (set next))
    {item : Item} {rest : List Item} {state final : State}
    (hfirst : ∀ next, step state item = .ok next → Consumes (itemId item) (set state) (set next))
    (hrun : (item :: rest).foldlM step state = .ok final) :
    ∃ key ∈ set state, key.transactionId ∉ (item :: rest).map itemId → key ∉ set final := by
  obtain ⟨next, hnext, hrest⟩ := foldlM_cons_eq_ok.mp hrun
  obtain ⟨key, hheld, hgone⟩ := hfirst next hnext
  refine ⟨key, hheld, fun hother hkey => ?_⟩
  have hitems : ∀ later ∈ item :: rest, key.transactionId ≠ itemId later := fun later hmem heq =>
    hother (heq ▸ List.mem_map_of_mem hmem)
  exact hgone (hitems item List.mem_cons_self)
    (foldlM_addsOnly set itemId hstep hrest hkey fun later hmem =>
      hitems later (List.mem_cons_of_mem _ hmem))

end

/-! ## One transaction -/

section

variable {utxo after : MultiEraUtxo} {inputs : List ShelleyTxIn} {txId : TxId} {slot : SlotNo}
  {withdrawalTotal deposits refunds : UInt64}

theorem held_of_sumConsumedCoin {total : UInt64}
    (hsum : sumConsumedCoin utxo inputs = .ok total) : ∀ input ∈ inputs, input ∈ utxo := by
  unfold sumConsumedCoin at hsum
  generalize (0 : UInt64) = start at hsum
  induction inputs generalizing start with
  | nil => simp
  | cons first rest ih =>
    obtain ⟨next, hnext, hrest⟩ := foldlM_cons_eq_ok.mp hsum
    refine List.forall_mem_cons.mpr ⟨?_, ih next hrest⟩
    rw [← AList.lookup_isSome]
    cases hlookup : utxo.lookup first with
    | none => simp [hlookup, reject] at hnext
    | some entry => rfl

theorem outputEntries_id {outputs : List MultiEraTxOut} :
    ∀ entry ∈ outputEntries txId outputs, entry.1.transactionId = txId := by
  intro entry hentry
  obtain ⟨output, -, rfl⟩ := List.mem_map.mp hentry
  rfl

/-- What the eras on the common set share: the inputs are not empty, and all are there. -/
theorem consumes_insertOutputs {total : UInt64} {outputs : List MultiEraTxOut}
    (hsome : ¬inputs.isEmpty = true) (hsum : sumConsumedCoin utxo inputs = .ok total) :
    AddsOnly txId utxo (insertOutputs (eraseAll inputs utxo) txId outputs) ∧
      Consumes txId utxo (insertOutputs (eraseAll inputs utxo) txId outputs) := by
  obtain ⟨input, hinput⟩ := List.exists_mem_of_ne_nil inputs (mt List.isEmpty_iff.mpr hsome)
  rw [insertOutputs_eq_insertAll]
  exact ⟨addsOnly_of_entries outputEntries_id, consumes_of_entries outputEntries_id hinput
    (held_of_sumConsumedCoin hsum input hinput)⟩

theorem consumes_applyPreScriptTx {label : String} {interval assets : Result Unit} {fee : UInt64}
    {outputs : List MultiEraTxOut}
    (happly : applyPreScriptTx label interval assets utxo txId inputs outputs fee withdrawalTotal
      deposits refunds = .ok after) : AddsOnly txId utxo after ∧ Consumes txId utxo after := by
  unfold applyPreScriptTx at happly
  simp only [bind_eq_ok, rejectIf_eq_ok] at happly
  obtain ⟨_, hsome, _, _, _, _, consumed, hconsumed, _, _, _, _, _, _, _, _, _, _, hreturn⟩ := happly
  cases hreturn
  exact consumes_insertOutputs hsome hconsumed

theorem consumes_applyTxWithdrawals {Extra : Type} {era : ScriptEra} {body : TxBody Extra}
    (happly : applyTxWithdrawals era utxo txId body slot withdrawalTotal deposits refunds =
      .ok after) : AddsOnly txId utxo after ∧ Consumes txId utxo after := by
  unfold applyTxWithdrawals at happly
  simp only [bind_eq_ok, rejectIf_eq_ok] at happly
  obtain ⟨_, hsome, _, _, _, _, consumed, hconsumed, _, _, _, _, _, _, _, _, _, _, hreturn⟩ := happly
  cases hreturn
  exact consumes_insertOutputs hsome hconsumed

theorem held_of_sumInputs {utxo : ShelleyUtxo} {start total : UInt64}
    (hsum : ShelleyUtxo.sumInputs utxo inputs start = .ok total) :
    ∀ input ∈ inputs, input ∈ utxo := by
  induction inputs generalizing start with
  | nil => simp
  | cons first rest ih =>
    rw [ShelleyUtxo.sumInputs] at hsum
    cases hlookup : utxo.lookup first with
    | none =>
      rw [hlookup] at hsum
      cases hsum
    | some output =>
      rw [hlookup] at hsum
      exact List.forall_mem_cons.mpr
        ⟨AList.lookup_isSome.mp (by rw [hlookup]; rfl), ih hsum⟩

theorem consumes_shelley {utxo after : ShelleyUtxo} {body : ShelleyTxBody}
    (happly : utxo.applyTxWithWithdrawals txId slot withdrawalTotal deposits refunds body =
      .ok after) : AddsOnly txId utxo after ∧ Consumes txId utxo after := by
  unfold ShelleyUtxo.applyTxWithWithdrawals at happly
  simp only [bind_eq_ok, rejectIf_eq_ok] at happly
  obtain ⟨_, hsome, _, _, _, _, consumed, hconsumed, _, _, hreturn⟩ := happly
  cases hreturn
  obtain ⟨input, hinput⟩ := List.exists_mem_of_ne_nil body.inputs (mt List.isEmpty_iff.mpr hsome)
  have hentries : ∀ entry ∈ body.outputs.zipIdx.map (fun output =>
      ((⟨txId, .ofNat output.2⟩ : ShelleyTxIn), output.1)), entry.1.transactionId = txId := by
    intro entry hentry
    obtain ⟨output, -, rfl⟩ := List.mem_map.mp hentry
    rfl
  exact ⟨addsOnly_of_entries hentries, consumes_of_entries hentries hinput
    (held_of_sumInputs hconsumed input hinput)⟩

variable {Update Other More Evaluator : Type} {crypto : Crypto}
  {codec : Codec (TxContents Update More)} {checks : Checks Update Other More Evaluator}
  {context : TxContext Update Other More Evaluator} {next : Staged (LedgerRest Update Other)}

theorem addedEntries_id {Extra : Type} {era : ScriptEra} {tx : DecodedTx Extra} :
    ∀ entry ∈ addedEntries era tx, entry.1.transactionId = tx.id := by
  unfold addedEntries
  split
  · exact outputEntries_id
  · simp

/-- A transaction with scripts; one that failed consumes an output if its collateral names one. -/
theorem consumes_applyTx
    (hrun : applyTx crypto codec (ledgerRules checks) context = .ok next) :
    AddsOnly context.tx.id context.utxo next.utxo ∧
      ((context.tx.txIsValid = true ∨
          ∃ input ∈ context.tx.body.collateral.getD [], input ∈ context.utxo) →
        Consumes context.tx.id context.utxo next.utxo) := by
  obtain ⟨_, _, _, htransition⟩ | ⟨hfailed, rfl⟩ := applyTx_cases hrun
  · obtain ⟨hadds, hconsumes⟩ := consumes_applyTxWithdrawals htransition
    exact ⟨hadds, fun _ => hconsumes⟩
  · have hremoved : context.tx.removedInputs = context.tx.body.collateral.getD [] := if_neg hfailed
    rw [insertAll_of_failed context.era context.utxo hfailed, hremoved]
    refine ⟨addsOnly_of_entries addedEntries_id, fun hcollateral => ?_⟩
    obtain ⟨input, hinput, hheld⟩ := hcollateral.resolve_left hfailed
    exact consumes_of_entries addedEntries_id hinput hheld

/-! ### Blocks that create and destroy nothing -/

theorem outputEntries_nodup {outputs : List MultiEraTxOut} (hfew : outputs.length ≤ 2 ^ 16) :
    ((outputEntries txId outputs).map Prod.fst).Nodup := by
  have hkeys : (outputEntries txId outputs).map Prod.fst =
      (List.range' 0 outputs.length).map fun index => ⟨txId, .ofNat index⟩ := by
    rw [← List.zipIdx_map_snd 0 outputs, outputEntries, List.map_map, List.map_map]
    rfl
  rw [hkeys]
  refine List.Nodup.map_on (fun first hfirst second hsecond hsame => ?_) List.nodup_range'
  have hindex : first % 2 ^ 16 = second % 2 ^ 16 :=
    congrArg (fun key : ShelleyTxIn => key.index.toNat) hsame
  rw [List.mem_range'_1] at hfirst hsecond
  rwa [Nat.mod_eq_of_lt (by omega), Nat.mod_eq_of_lt (by omega)] at hindex

theorem txDrifts_eq_zero {entered : FullState Update Other} {block : ScriptBlock}
    {evaluator : Option Evaluator} (feeUtxo : MultiEraUtxo)
    {start : Staged (LedgerRest Update Other)} {txs : List (FullTx Update More)} {index : Nat}
    (hvalid : ∀ tx ∈ txs, tx.txIsValid = true)
    (hfew : ∀ tx ∈ txs, tx.body.outputs.length ≤ 2 ^ 16) (hids : (txs.map (·.id)).Nodup)
    (hnew : ∀ key ∈ start.utxo, key.transactionId ∉ txs.map (·.id))
    (hcovered : Along (blockRound crypto codec checks entered block evaluator)
      (fun staged tx => txUncovered checks (roundContext entered block evaluator staged tx) = 0)
      start (txs.zipIdx index)) :
    sumAlong (blockRound crypto codec checks entered block evaluator)
      (fun staged tx => txDrift checks feeUtxo (roundContext entered block evaluator staged tx))
      start (txs.zipIdx index) = 0 := by
  induction txs generalizing start index with
  | nil => rfl
  | cons tx rest ih =>
    obtain ⟨hfirst, hlater⟩ := hcovered
    rw [List.map_cons, List.nodup_cons] at hids
    have hadded : addedEntries block.era tx = outputEntries tx.id tx.body.outputs :=
      if_pos (hvalid tx List.mem_cons_self)
    have hnone : overwrittenLovelace block.era start.utxo tx = 0 := by
      unfold overwrittenLovelace
      rw [hadded]
      refine overwritten_eq_zero _ (outputEntries_nodup (hfew tx List.mem_cons_self)) ?_
      intro entry hentry hheld
      refine hnew entry.1 ((mem_eraseAll _).mp hheld).2 ?_
      rw [outputEntries_id entry hentry]
      exact List.mem_cons_self
    have hdrift : txDrift checks feeUtxo (roundContext entered block evaluator start (tx, index)) =
        0 := by
      have hpos : (roundContext entered block evaluator start (tx, index)).tx.txIsValid = true :=
        hvalid tx List.mem_cons_self
      unfold txDrift
      rw [if_pos hpos, hfirst]
      exact congrArg (fun amount : Nat => (0 : Int) - amount) hnone
    rw [List.zipIdx_cons, sumAlong, hdrift, zero_add]
    cases hround : blockRound crypto codec checks entered block evaluator start (tx, index) with
    | error failure => rfl
    | ok next =>
      refine ih (fun later hmem => hvalid later (List.mem_cons_of_mem _ hmem))
        (fun later hmem => hfew later (List.mem_cons_of_mem _ hmem)) hids.2 ?_ (hlater next hround)
      intro key hkey hmem
      by_cases hown : key.transactionId = tx.id
      · exact hids.1 (hown ▸ hmem)
      · exact hnew key ((consumes_applyTx hround).1 key hkey hown) (List.mem_cons_of_mem _ hmem)

/-- **Valid transactions with new ids and covered refunds create and destroy nothing**, in a block
that activates no genesis funds. -/
theorem blockDrift_eq_zero {state : FullState Update Other} {block : ScriptBlock}
    {evaluator : Option Evaluator} {txs : List (FullTx Update More)}
    (hgenesis : state.currentEra = .byron → state.rest.pendingShelleyGenesisUtxo.getD [] = [])
    (hvalid : ∀ tx ∈ txs, tx.txIsValid = true)
    (hfew : ∀ tx ∈ txs, tx.body.outputs.length ≤ 2 ^ 16) (hids : (txs.map (·.id)).Nodup)
    (hnew : ∀ key ∈ state.multiEraUtxo, key.transactionId ∉ txs.map (·.id))
    (hcovered : Along
      (blockRound crypto codec checks (enteredState checks state block) block evaluator)
      (fun staged tx => txUncovered checks
        (roundContext (enteredState checks state block) block evaluator staged tx) = 0)
      (stagedOf (enteredState checks state block)) txs.zipIdx) :
    blockDrift crypto codec checks state block evaluator txs = 0 := by
  have hdrift : genesisDrift state = 0 := by
    unfold genesisDrift
    split
    · next hbyron =>
      rw [hgenesis hbyron]
      rfl
    · rfl
  have hutxo : (stagedOf (enteredState checks state block)).utxo = state.multiEraUtxo := by
    unfold enteredState enterBlock
    rw [stagedOf_adoptBlockProtocolVersion]
    change (prepareBlock block.header.slotNo state).multiEraUtxo = _
    unfold prepareBlock activatePendingShelleyGenesis
    split
    · next hbyron =>
      simp only [hgenesis hbyron]
      rfl
    · rfl
  unfold blockDrift
  rw [hdrift, zero_add]
  exact txDrifts_eq_zero state.multiEraUtxo hvalid hfew hids (hutxo ▸ hnew) hcovered

end

/-! ## The commit of a call -/

section

variable {More Evaluator : Type} {env : LedgerCallEnv More Evaluator}

/-- The ids in a block without scripts. -/
def earlyIds {Body : Type} (decode : Tx → Result (EarlyTx Body More)) (txs : List Tx) :
    List TxId :=
  match txs.mapM decode with
  | .ok decoded => decoded.map (·.id)
  | .error _ => []

namespace LedgerCall

/-- The ids of the transactions of a call that can be refused after its commit. -/
def transactionIds : LedgerCall env → List TxId
  | earlyBlock block =>
    match block.era with
    | .shelley => earlyIds env.early.shelley.decode block.transactions
    | .allegra => earlyIds env.early.allegra.decode block.transactions
    | .mary => earlyIds env.early.mary.decode block.transactions
  | scriptBlock block _ => block.transactions.map (·.id)
  | submission _ _ (.shelley tx) => [tx.id]
  | submission _ _ (.allegra tx) => [tx.id]
  | submission _ _ (.mary tx) => [tx.id]
  | submission _ _ (.alonzo tx) => [tx.id]
  | submission _ _ (.babbage tx) => [tx.id]
  | submission _ _ (.conway _) => []
  | byronBlock _ => []

/-- If the scripts of the first transaction of a block failed, its collateral is in the set. -/
def FirstConsumes (state : BoundaryState) : LedgerCall env → Prop
  | scriptBlock block _ => ∀ first later,
    block.transactions.mapM (decodeTx env.codec.toCodec block.era) = .ok (first :: later) →
      first.txIsValid = true ∨
        ∃ input ∈ first.body.collateral.getD [], input ∈ state.multiEraUtxo
  | _ => True

end LedgerCall

/-- An output of the set that the call works on is missing after the commit; Shelley makes the
common set anew from its own. -/
inductive Lost (ids : List TxId) (entered committed : BoundaryState) : Prop
  | shelley (key : ShelleyTxIn) (held : key ∈ entered.rest.other.shelleyUtxo)
      (gone : key.transactionId ∉ ids →
        key ∉ committed.rest.other.shelleyUtxo ∧ key ∉ committed.multiEraUtxo)
  | common (key : ShelleyTxIn) (held : key ∈ entered.multiEraUtxo)
      (gone : key.transactionId ∉ ids → key ∉ committed.multiEraUtxo)

theorem mem_fromShelleyUtxo {utxo : ShelleyUtxo} {key : ShelleyTxIn}
    (hkey : key ∈ MultiEraUtxo.fromShelleyUtxo utxo) : key ∈ utxo := by
  rcases (mem_insertAll _ _ _).mp hkey with hentry | hnone
  · simpa [pairs, AList.mem_keys, AList.keys, List.keys] using hentry
  · exact absurd hnone (AList.notMem_empty _)

theorem map_zipIdx {α β : Type} (f : α → β) (items : List α) :
    (items.zipIdx.map fun item => f item.1) = items.map f := by
  conv_rhs => rw [← List.zipIdx_map_fst 0 items, List.map_map]
  rfl

section

variable {Out Body : Type} {transition : Transition (KeyedMap ShelleyTxIn Out) Body}
  {rules : EraRules (KeyedMap ShelleyTxIn Out) Body More} {utxo : KeyedMap ShelleyTxIn Out}
  {commit : KeyedMap ShelleyTxIn Out → BoundaryState → BoundaryState}
  {state committed : BoundaryState} {slot : SlotNo} {items : List Leftover}

theorem consumes_applyEarlyTx
    (htransition : ∀ utxo id slot withdrawals deposits refunds body after,
      transition utxo id slot withdrawals deposits refunds body = .ok after →
        AddsOnly id utxo after ∧ Consumes id utxo after)
    {staged next : KeyedMap ShelleyTxIn Out × CertState} {tx : EarlyTx Body More × Nat}
    (hrun : applyEarlyTx transition rules state slot staged tx = .ok next) :
    AddsOnly tx.1.id staged.1 next.1 ∧ Consumes tx.1.id staged.1 next.1 := by
  unfold applyEarlyTx at hrun
  simp only [bind_eq_ok] at hrun
  obtain ⟨_, -, ⟨certified, adjustments⟩, -, after, hafter, hreturn⟩ := hrun
  cases hreturn
  exact htransition _ _ _ _ _ _ _ _ hafter

theorem consumed_early
    (htransition : ∀ utxo id slot withdrawals deposits refunds body after,
      transition utxo id slot withdrawals deposits refunds body = .ok after →
        AddsOnly id utxo after ∧ Consumes id utxo after) {block : EarlyBlock}
    (hstage : stageEarlyTransactions env transition rules utxo commit state block =
      .ok (committed, items)) (hitems : items ≠ []) :
    ∃ final certified, committed = commit final
        { state with rest := { state.rest with toCertState := certified } } ∧
      ∃ key ∈ utxo, key.transactionId ∉ earlyIds rules.decode block.transactions →
        key ∉ final := by
  unfold stageEarlyTransactions at hstage
  split at hstage
  · cases hstage
    exact absurd rfl hitems
  · simp only [bind_eq_ok] at hstage
    obtain ⟨decoded, hdecode, ⟨final, certified⟩, hloop, hreturn⟩ := hstage
    cases hreturn
    refine ⟨final, certified, rfl, ?_⟩
    obtain ⟨first, later, rfl⟩ := List.exists_cons_of_ne_nil (mt (congrArg _) hitems)
    unfold earlyIds
    rw [hdecode]
    dsimp only
    rw [← map_zipIdx]
    exact foldlM_consumes Prod.fst (fun tx : EarlyTx Body More × Nat => tx.1.id)
      (fun _ _ _ hnext => (consumes_applyEarlyTx htransition hnext).1)
      (fun _ hnext => (consumes_applyEarlyTx htransition hnext).2) hloop

theorem consumed_earlySubmission
    (htransition : ∀ utxo id slot withdrawals deposits refunds body after,
      transition utxo id slot withdrawals deposits refunds body = .ok after →
        AddsOnly id utxo after ∧ Consumes id utxo after)
    {check : BoundaryState → SlotNo → EarlyTx Body More → Result Unit} {tx : EarlyTx Body More}
    (hstage : stageEarlySubmission env transition rules check utxo commit slot state tx =
      .ok (committed, items)) :
    ∃ final certified, (committed, items) = commitSubmission (env.earlyLeftover tx) (commit final
        { state with rest := { state.rest with toCertState := certified } }) ∧
      ∃ key ∈ utxo, key.transactionId ∉ [tx.id] → key ∉ final := by
  obtain ⟨⟨final, certified⟩, hround, hreturn⟩ := bind_eq_ok.mp hstage
  obtain ⟨key, hheld, hgone⟩ := (consumes_applyEarlyTx htransition hround).2
  exact ⟨final, certified, (Except.ok.inj hreturn).symm, key, hheld, by simpa using hgone⟩

end

theorem decodeTx_id {codec : Codec (TxContents ProtocolParameterUpdate More)} {era : ScriptEra}
    {txs : List Tx} {decoded : List (FullTx ProtocolParameterUpdate More)}
    (hdecode : txs.mapM (decodeTx codec era) = .ok decoded) :
    decoded.map (·.id) = txs.map (·.id) := by
  induction txs generalizing decoded with
  | nil =>
    cases hdecode
    rfl
  | cons tx rest ih =>
    simp only [List.mapM_cons, bind_eq_ok] at hdecode
    obtain ⟨first, hfirst, later, hlater, hreturn⟩ := hdecode
    cases hreturn
    unfold decodeTx at hfirst
    simp only [bind_eq_ok] at hfirst
    obtain ⟨_, -, _, -, hfirst⟩ := hfirst
    cases hfirst
    rw [List.map_cons, List.map_cons, ih hlater]

theorem consumed_script {block : ScriptBlock} {evaluator : Option Evaluator}
    {state committed : BoundaryState} {items : List Leftover}
    (hstage : stageScriptEraBlock env evaluator state block = .ok (committed, items))
    (hitems : items ≠ [])
    (hfirst : (LedgerCall.scriptBlock block evaluator : LedgerCall env).FirstConsumes state) :
    ∃ key ∈ state.multiEraUtxo, key.transactionId ∉ block.transactions.map (·.id) →
      key ∉ committed.multiEraUtxo := by
  unfold stageScriptEraBlock at hstage
  split at hstage
  · cases hstage
    exact absurd rfl hitems
  · obtain ⟨decoded, hdecode, hstage⟩ := bind_eq_ok.mp hstage
    obtain ⟨_, -, hstage⟩ := bind_eq_ok.mp hstage
    by_cases hconway : block.era = .conway
    · simp only [hconway, if_true, bind_eq_ok] at hstage
      obtain ⟨_, -, staged, -, hreturn⟩ := hstage
      cases hreturn
      exact absurd rfl hitems
    · simp only [hconway, if_false, bind_eq_ok] at hstage
      obtain ⟨staged, hloop, hreturn⟩ := hstage
      cases hreturn
      obtain ⟨first, later, rfl⟩ := List.exists_cons_of_ne_nil (fun hnone : decoded = [] =>
        hitems (by rw [hnone]; rfl))
      rw [applyTxs_eq_foldlM] at hloop
      rw [← decodeTx_id hdecode, ← map_zipIdx]
      exact foldlM_consumes Staged.utxo
        (fun tx : FullTx ProtocolParameterUpdate More × Nat => tx.1.id)
        (fun _ _ _ hnext => (consumes_applyTx hnext).1)
        (fun _ hnext => (consumes_applyTx hnext).2 (hfirst first later hdecode)) hloop

theorem consumed_scriptSubmission {era : ScriptEra} {slot : SlotNo} {evaluator : Option Evaluator}
    {tx : FullTx ProtocolParameterUpdate More} {state committed : BoundaryState}
    {items : List Leftover}
    (hstage : stageScriptSubmission env era slot evaluator state tx = .ok (committed, items)) :
    ∃ key ∈ state.multiEraUtxo, key.transactionId ∉ [tx.id] → key ∉ committed.multiEraUtxo := by
  unfold stageScriptSubmission at hstage
  simp only [bind_eq_ok] at hstage
  obtain ⟨_, -, _, -, ⟨rest, adjustments⟩, -, utxo, htransition, hreturn⟩ := hstage
  cases hreturn
  obtain ⟨key, hheld, hgone⟩ := (consumes_applyTxWithdrawals htransition).2
  exact ⟨key, hheld, fun hother => hgone (mt List.mem_singleton.mpr hother)⟩

theorem utxo_adoptEarlyProtocolVersion (block : EarlyBlock) (state : BoundaryState) :
    (adoptEarlyProtocolVersion block state).multiEraUtxo = state.multiEraUtxo := by
  obtain hsame | ⟨_, _, -, -, hraised⟩ := adoptEarlyProtocolVersion_cases block state
  · rw [hsame]
  · rw [hraised]

/-- A call that leaves updates to check has committed a set without an output it started from. -/
theorem lost_of_stage (call : LedgerCall env) {entered committed : BoundaryState}
    {items : List Leftover} (hstage : call.parts.stage entered = .ok (committed, items))
    (hitems : items ≠ []) (hfirst : call.FirstConsumes entered) :
    Lost call.transactionIds entered committed := by
  cases call with
  | byronBlock block =>
    obtain ⟨_, -, hstage⟩ := bind_eq_ok.mp hstage
    obtain ⟨applied, -, hreturn⟩ := bind_eq_ok.mp hstage
    cases hreturn
    exact absurd rfl hitems
  | earlyBlock block =>
    obtain ⟨_, -, hstage⟩ := bind_eq_ok.mp hstage
    unfold stageEarlyEraBlock at hstage
    rw [rest_adoptEarlyProtocolVersion, utxo_adoptEarlyProtocolVersion] at hstage
    unfold LedgerCall.transactionIds
    cases hera : block.era
    all_goals
      simp only [hera] at hstage ⊢
    · obtain ⟨final, certified, rfl, key, hheld, hgone⟩ :=
        consumed_early (fun _ _ _ _ _ _ _ _ => consumes_shelley) hstage hitems
      exact .shelley key hheld fun hother =>
        ⟨hgone hother, fun hkey => hgone hother (mem_fromShelleyUtxo hkey)⟩
    all_goals
      obtain ⟨final, certified, rfl, key, hheld, hgone⟩ :=
        consumed_early (fun _ _ _ _ _ _ _ _ => consumes_applyPreScriptTx) hstage hitems
      exact .common key hheld hgone
  | scriptBlock block evaluator =>
    obtain ⟨_, -, hstage⟩ := bind_eq_ok.mp hstage
    have hutxo : (adoptBlockProtocolVersion block entered).multiEraUtxo = entered.multiEraUtxo :=
      congrArg Staged.utxo (stagedOf_adoptBlockProtocolVersion block entered)
    obtain ⟨key, hheld, hgone⟩ := consumed_script hstage hitems
      (by simpa only [LedgerCall.FirstConsumes, hutxo] using hfirst)
    exact .common key (hutxo ▸ hheld) hgone
  | submission slot evaluator tx =>
    cases tx with
    | shelley tx =>
      obtain ⟨final, certified, hcommitted, key, hheld, hgone⟩ :=
        consumed_earlySubmission (fun _ _ _ _ _ _ _ _ => consumes_shelley) hstage
      cases hcommitted
      exact .shelley key hheld fun hother =>
        ⟨hgone hother, fun hkey => hgone hother (mem_fromShelleyUtxo hkey)⟩
    | allegra tx | mary tx =>
      obtain ⟨final, certified, hcommitted, key, hheld, hgone⟩ :=
        consumed_earlySubmission (fun _ _ _ _ _ _ _ _ => consumes_applyPreScriptTx) hstage
      cases hcommitted
      exact .common key hheld hgone
    | alonzo tx | babbage tx =>
      obtain ⟨key, hheld, hgone⟩ := consumed_scriptSubmission hstage
      exact .common key hheld hgone
    | conway tx =>
      unfold LedgerCall.parts submissionCall stageSubmission stageConwaySubmission at hstage
      simp only [bind_eq_ok] at hstage
      obtain ⟨_, -, _, -, _, -, hreturn⟩ := hstage
      cases hreturn
      exact absurd rfl hitems

end

end Yggdrasil.Ledger
