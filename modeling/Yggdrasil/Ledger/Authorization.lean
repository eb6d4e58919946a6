import Yggdrasil.Ledger.BlockRules

/-!
# Who signed for what a block removes

An accepted block takes entries out of the UTxO set: the spending inputs of a valid
transaction, the collateral inputs of an invalid one.  The key hashes that have to be witnessed
are gathered before that branch, from the spending inputs and never from collateral, and key
hashes and Byron roots are matched in one set.  The main result says exactly which accepted
blocks have the owners' signatures for everything they remove.
-/

namespace Yggdrasil.Ledger

section

variable {Rest Extra Evaluator : Type}

/-- The witness set holds a verifying signature of the owner of an address: by the key of its
payment credential, or for the root of a Byron address. -/
def OwnerSigned (crypto : Crypto) (witnesses : WitnessSet) (txId : TxId) (address : Bytes) : Prop :=
  (∀ hash, paymentKeyHash address = some hash →
    ∃ witness ∈ witnesses.vkeyWitnesses, vkeyHash crypto witness.vkey = hash ∧
      crypto.verify witness.vkey txId witness.signature = true) ∧
  ∀ root, byronRoot address = .ok (some root) →
    ∃ witness ∈ witnesses.bootstrapWitnesses, bootstrapWitnessKeyHash crypto witness = root ∧
      crypto.verify witness.publicKey txId witness.signature = true

/-- The witness set names the owner of an address by a witness of the owner's kind. -/
def OwnerListed (crypto : Crypto) (witnesses : WitnessSet) (address : Bytes) : Prop :=
  (∀ hash, paymentKeyHash address = some hash → hash ∈ witnesses.vkeyHashes crypto) ∧
  ∀ root, byronRoot address = .ok (some root) → root ∈ witnesses.bootstrapHashes crypto

/-- No owner hash of an address is met only by a witness of the other kind: a key hash by the
root of a bootstrap witness, or a Byron root by the hash of a key. -/
def KindsSeparated (crypto : Crypto) (witnesses : WitnessSet) (address : Bytes) : Prop :=
  (∀ hash, paymentKeyHash address = some hash → hash ∈ witnesses.bootstrapHashes crypto →
    hash ∈ witnesses.vkeyHashes crypto) ∧
  ∀ root, byronRoot address = .ok (some root) → root ∈ witnesses.vkeyHashes crypto →
    root ∈ witnesses.bootstrapHashes crypto

/-- Every entry that the transaction removes has its owner's signature. -/
def OwnersSigned (crypto : Crypto) (codec : Codec Extra) (utxo : MultiEraUtxo)
    (tx : DecodedTx Extra) : Prop :=
  ∃ bytes witnesses, tx.witnessBytes = some bytes ∧ codec.witnessSet bytes = .ok witnesses ∧
    ∀ input ∈ tx.removedInputs, ∀ txout, utxo.lookup input = some txout →
      OwnerSigned crypto witnesses tx.id txout.address

/-- What the witness check does not see: the kinds of the witnesses for spending inputs, and
for collateral inputs whether there is a witness at all. -/
def UncheckedPart (crypto : Crypto) (codec : Codec Extra) (utxo : MultiEraUtxo)
    (tx : DecodedTx Extra) : Prop :=
  ∀ bytes witnesses, tx.witnessBytes = some bytes → codec.witnessSet bytes = .ok witnesses →
    ∀ input ∈ tx.removedInputs, ∀ txout, utxo.lookup input = some txout →
      if tx.txIsValid then KindsSeparated crypto witnesses txout.address
      else OwnerListed crypto witnesses txout.address

/-- The transaction is applied to the staged state when the block is applied. -/
def AppliedTo (crypto : Crypto) (codec : Codec Extra) (rules : Rules Rest Extra Evaluator)
    (state : LedgerState Rest) (block : ScriptBlock) (evaluator : Option Evaluator)
    (staged : Staged Rest) (tx : DecodedTx Extra) : Prop :=
  ∃ front later, block.transactions.mapM (decodeTx codec block.era) = .ok (front ++ tx :: later) ∧
    applyTxs crypto codec rules (enterBlock rules state block) block.era block.header.slotNo
      evaluator 0 ⟨(enterBlock rules state block).multiEraUtxo,
        (enterBlock rules state block).rest⟩ front = .ok staged

/-! ## One transaction -/

variable {tx : DecodedTx Extra} {codec : Codec Extra} {crypto : Crypto}

variable {witnesses : WitnessSet}

theorem ownerSigned_iff_ownerListed {txId : TxId}
    (hkeys : ∀ witness ∈ witnesses.vkeyWitnesses,
      crypto.verify witness.vkey txId witness.signature = true)
    (hbootstrap : ∀ witness ∈ witnesses.bootstrapWitnesses,
      crypto.verify witness.publicKey txId witness.signature = true) (address : Bytes) :
    OwnerSigned crypto witnesses txId address ↔ OwnerListed crypto witnesses address := by
  unfold OwnerSigned OwnerListed WitnessSet.vkeyHashes WitnessSet.bootstrapHashes
  refine and_congr (forall₂_congr fun hash _ => ?_) (forall₂_congr fun root _ => ?_)
  · rw [List.mem_map]
    constructor
    · rintro ⟨witness, hmem, hhash, _⟩
      exact ⟨witness, hmem, hhash⟩
    · rintro ⟨witness, hmem, hhash⟩
      exact ⟨witness, hmem, hhash, hkeys witness hmem⟩
  · rw [List.mem_map]
    constructor
    · rintro ⟨witness, hmem, hroot, _⟩
      exact ⟨witness, hmem, hroot⟩
    · rintro ⟨witness, hmem, hroot⟩
      exact ⟨witness, hmem, hroot, hbootstrap witness hmem⟩

/-- For an address whose owner hashes are all provided, the owner is listed exactly when the
kinds of the witnesses are kept apart. -/
theorem ownerListed_iff_kindsSeparated {address : Bytes} {hashes required : List Hash28}
    (hashesOf : ownerHashes address = .ok hashes) (hsub : ∀ hash ∈ hashes, hash ∈ required)
    (hprovided : ∀ hash ∈ required,
      hash ∈ witnesses.vkeyHashes crypto ∨ hash ∈ witnesses.bootstrapHashes crypto) :
    OwnerListed crypto witnesses address ↔ KindsSeparated crypto witnesses address := by
  obtain ⟨root, hroot, hlist⟩ := bind_eq_ok.mp hashesOf
  cases hlist
  have hkeyProvided : ∀ hash, paymentKeyHash address = some hash →
      hash ∈ witnesses.vkeyHashes crypto ∨ hash ∈ witnesses.bootstrapHashes crypto := by
    intro hash hkey
    refine hprovided hash (hsub hash ?_)
    simp [hkey]
  have hrootProvided : ∀ other, byronRoot address = .ok (some other) →
      other ∈ witnesses.vkeyHashes crypto ∨ other ∈ witnesses.bootstrapHashes crypto := by
    intro other hother
    rw [hroot] at hother
    cases hother
    refine hprovided other (hsub other ?_)
    simp
  refine and_congr (forall₂_congr fun hash hkey => ?_) (forall₂_congr fun other hother => ?_)
  · have hcases := hkeyProvided hash hkey
    tauto
  · have hcases := hrootProvided other hother
    tauto

/-- What a passed check of the key witnesses says about the removed entries. -/
theorem ownersSigned_iff_uncheckedPart {context : RuleContext Rest Extra Evaluator}
    (hcheck : checkKeyWitnesses crypto codec context = .ok ())
    (hpresent : context.tx.witnessBytes.isSome) :
    OwnersSigned crypto codec context.utxo context.tx ↔
      UncheckedPart crypto codec context.utxo context.tx := by
  obtain ⟨bytes, hbytes⟩ := Option.isSome_iff_exists.mp hpresent
  obtain ⟨required, hrequired, hwitnesses⟩ := bind_eq_ok.mp hcheck
  rw [hbytes] at hwitnesses
  obtain ⟨witnesses, hdecoded, hvalid⟩ := bind_eq_ok.mp hwitnesses
  obtain ⟨hprovided, hkeys, hbootstrap⟩ := validateWitnesses_spec hvalid
  obtain ⟨fromInputs, hinputs, hall⟩ := bind_eq_ok.mp hrequired
  cases hall
  have hspec := (requiredVkeyHashesFromInputs_spec hinputs).2
  -- a removed entry of a valid transaction is a spending input, so its owner hashes are required
  have hentry : ∀ input ∈ context.tx.removedInputs, ∀ txout,
      context.utxo.lookup input = some txout →
      (OwnerSigned crypto witnesses context.tx.id txout.address ↔
        if context.tx.txIsValid then KindsSeparated crypto witnesses txout.address
        else OwnerListed crypto witnesses txout.address) := by
    intro input hinput txout hlookup
    rw [ownerSigned_iff_ownerListed hkeys hbootstrap]
    cases hflag : context.tx.txIsValid with
    | false => simp
    | true =>
      have hspending : input ∈ context.tx.body.inputs := by
        simpa [DecodedTx.removedInputs, hflag] using hinput
      obtain ⟨hashes, hhashes, hsub⟩ := hspec input hspending
      simp only [inputHashes, hlookup] at hhashes
      refine ownerListed_iff_kindsSeparated hhashes hsub fun hash hmem => hprovided hash ?_
      simp only [List.append_assoc]
      exact List.mem_append_left _ hmem
  constructor
  · rintro ⟨bytes', witnesses', hbytes', hdecoded', hsigned⟩ other others hother hothers
    rw [hbytes] at hbytes' hother
    cases hbytes'
    cases hother
    rw [hdecoded] at hdecoded' hothers
    cases hdecoded'
    cases hothers
    exact fun input hinput txout hlookup =>
      (hentry input hinput txout hlookup).mp (hsigned input hinput txout hlookup)
  · intro hunchecked
    exact ⟨bytes, witnesses, hbytes, hdecoded, fun input hinput txout hlookup =>
      (hentry input hinput txout hlookup).mpr
        (hunchecked bytes witnesses hbytes hdecoded input hinput txout hlookup)⟩

/-! ## A whole block -/

variable {rules : Rules Rest Extra Evaluator} {evaluator : Option Evaluator}

/-- A transaction in the middle of a successful loop passed its check of key witnesses. -/
theorem checkKeyWitnesses_of_applyTxs {state : LedgerState Rest} {era : ScriptEra} {slot : SlotNo}
    {front later : List (DecodedTx Extra)} {index : Nat} {start staged result : Staged Rest}
    (hall : applyTxs crypto codec rules state era slot evaluator index start
      (front ++ tx :: later) = .ok result)
    (hfront : applyTxs crypto codec rules state era slot evaluator index start front = .ok staged) :
    ∃ txIndex, checkKeyWitnesses crypto codec
      ⟨state, era, slot, evaluator, txIndex, staged.utxo, staged.rest, tx⟩ = .ok () := by
  induction front generalizing index start with
  | nil =>
    cases hfront
    obtain ⟨next, hstep, _⟩ := bind_eq_ok.mp hall
    unfold applyTx at hstep
    simp only [bind_eq_ok] at hstep
    obtain ⟨_, _, _, _, _, _, _, hkeys, _⟩ := hstep
    exact ⟨index, hkeys⟩
  | cons first rest ih =>
    -- both runs take the same first step, so they go on from the same state
    obtain ⟨next, hstep, hrest⟩ := bind_eq_ok.mp hall
    obtain ⟨next', hstep', hrest'⟩ := bind_eq_ok.mp hfront
    rw [hstep] at hstep'
    cases hstep'
    exact ih hrest hrest'

theorem witnessBytes_of_mem_decoded {era : ScriptEra} {txs : List Tx}
    {decoded : List (DecodedTx Extra)} (hdecoded : txs.mapM (decodeTx codec era) = .ok decoded)
    (hmem : tx ∈ decoded) :
    ∃ raw ∈ txs, tx.witnessBytes = raw.witnesses := by
  induction txs generalizing decoded with
  | nil =>
    cases hdecoded
    cases hmem
  | cons first rest ih =>
    rw [List.mapM_cons] at hdecoded
    obtain ⟨head, hhead, hdecoded⟩ := bind_eq_ok.mp hdecoded
    obtain ⟨tail, htail, hlist⟩ := bind_eq_ok.mp hdecoded
    cases hlist
    rcases List.mem_cons.mp hmem with rfl | hlater
    · unfold decodeTx at hhead
      simp only [bind_eq_ok] at hhead
      obtain ⟨_, _, _, _, hreturn⟩ := hhead
      cases hreturn
      exact ⟨first, List.mem_cons_self, rfl⟩
    · obtain ⟨raw, hraw, hsame⟩ := ih htail hlater
      exact ⟨raw, List.mem_cons_of_mem _ hraw, hsame⟩

theorem checkKeyWitnesses_of_accepted {state applied : LedgerState Rest} {block : ScriptBlock}
    {staged : Staged Rest}
    (haccepted : applyBlockValidated crypto codec rules state block evaluator = .ok applied)
    (happlied : AppliedTo crypto codec rules state block evaluator staged tx) :
    ∃ txIndex, checkKeyWitnesses crypto codec ⟨enterBlock rules state block, block.era,
      block.header.slotNo, evaluator, txIndex, staged.utxo, staged.rest, tx⟩ = .ok () := by
  obtain ⟨front, later, hdecoded, hfront⟩ := happlied
  unfold applyBlockValidated at haccepted
  simp only [bind_eq_ok] at haccepted
  obtain ⟨_, _, _, _, _, _, result, hblock, _⟩ := haccepted
  have hsome : ¬ block.transactions.isEmpty := by
    intro hempty
    rw [List.isEmpty_iff.mp hempty] at hdecoded
    simp [pure, Except.pure] at hdecoded
  obtain ⟨_, _, hall, _⟩ := applyEraBlock_eq_ok hsome hdecoded hblock
  exact checkKeyWitnesses_of_applyTxs hall hfront

/-- **Whose signatures an accepted block carries.**  For every ledger state and every accepted
Alonzo, Babbage or Conway block with witness bytes on every transaction, all removed entries
have their owners' signatures exactly when no spending input's owner is met only by a witness of
the other kind and every owner of a collateral input of an invalid transaction is listed. -/
theorem ownersSigned_iff (crypto : Crypto) (codec : Codec Extra)
    (rules : Rules Rest Extra Evaluator) (state applied : LedgerState Rest) (block : ScriptBlock)
    (evaluator : Option Evaluator)
    (haccepted : applyBlockValidated crypto codec rules state block evaluator = .ok applied)
    (hwitnesses : ∀ tx ∈ block.transactions, tx.witnesses.isSome) :
    (∀ staged tx, AppliedTo crypto codec rules state block evaluator staged tx →
      OwnersSigned crypto codec staged.utxo tx) ↔
    ∀ staged tx, AppliedTo crypto codec rules state block evaluator staged tx →
      UncheckedPart crypto codec staged.utxo tx := by
  refine forall₂_congr fun staged tx => ?_
  refine imp_congr_right fun happlied => ?_
  obtain ⟨txIndex, hcheck⟩ := checkKeyWitnesses_of_accepted haccepted happlied
  have hpresent : tx.witnessBytes.isSome := by
    obtain ⟨front, later, hdecoded, _⟩ := happlied
    obtain ⟨raw, hraw, hsame⟩ := witnessBytes_of_mem_decoded hdecoded
      (List.mem_append_right front List.mem_cons_self)
    rw [hsame]
    exact hwitnesses raw hraw
  exact ownersSigned_iff_uncheckedPart hcheck hpresent

end

/-! ## Collateral of somebody else -/

/-- Rules of a chain where everything but the scripts is in order: phase 2 ends with a failing
script. -/
def failingScripts : Rules Unit Unit Unit where
  prepare := fun _ _ state => state
  integrity := fun _ => .ok ()
  network := fun _ => .ok ()
  scripts := fun _ => .ok ()
  phase2 := fun _ => reject (.plutusScriptFailed 9 "error term")
  effects := fun _ => .ok ((), ⟨0, 0, 0⟩)
  finish := fun _ _ _ _ => .ok ()
  recordProducer := fun _ _ => ()

/-- Hashes that read bytes as numbers; a signature is the sum of key and message. -/
def sumCrypto : Crypto where
  hashBytes224 := fun bytes => .ofNat 224 (natOfBytesBe bytes)
  sha3 := fun bytes => .ofNat 256 (natOfBytesBe bytes)
  verify := fun vkey message signature => signature.toNat = vkey.toNat + message.toNat

/-- An address that the key with hash 5 locks. -/
def ownerAddress : Bytes := 0x61 :: (List.replicate 27 0 ++ [5])

def ownerUtxo : MultiEraUtxo :=
  Library.KeyedMap.single ⟨3, 0⟩ (.alonzo ownerAddress (.coin 10000000) none)

/-- A body that spends nothing, mints under a failing policy and gives the owner's entry as
collateral. -/
def seizingBody : TxBody Unit where
  inputs := []
  outputs := []
  fee := 200000
  ttl := none
  validityIntervalStart := none
  certificates := none
  withdrawals := none
  updateProposers := none
  mint := some (Library.KeyedMap.single 9 (Library.KeyedMap.single [] 1))
  collateral := some [⟨3, 0⟩]
  requiredSigners := none
  collateralReturn := none
  totalCollateral := none
  referenceInputs := none
  voters := none
  treasuryDonation := none
  extra := ()

/-- Decoders under which the witness bytes `[1]` hold the owner's signature on transaction 4 and
all others hold no signature. -/
def seizingCodec : Codec Unit where
  body := fun _ _ => .ok seizingBody
  outputRawSizes := fun _ => .ok ([], none)
  witnessSet := fun bytes => .ok {
    vkeyWitnesses := if bytes = [1] then [⟨5, 9⟩] else []
    bootstrapWitnesses := []
    redeemers := [⟨1000, 1000⟩] }

/-- A block with that transaction, marked as failed. -/
def seizingBlock (era : ScriptEra) (witnesses : Bytes) : ScriptBlock where
  era := era
  header := ⟨1, 0, 10, 1⟩
  protocolVersion := none
  headerCborSize := none
  transactions := [{
    id := 4
    body := List.replicate 100 0
    witnesses := some witnesses
    auxiliaryData := none
    isValid := some false }]

def ownerState : LedgerState Unit where
  tip := .origin
  currentEra := .alonzo
  protocolParams := some .alonzoDefaults
  genDelegs := ∅
  multiEraUtxo := ownerUtxo
  rest := ()

/-- The criterion at a block where the owner did sign. -/
theorem ownersSigned_iff_signedBlock :
    ∃ applied, applyBlockValidated sumCrypto seizingCodec failingScripts ownerState
        (seizingBlock .conway [1]) (some ()) = .ok applied ∧
      ((∀ staged tx, AppliedTo sumCrypto seizingCodec failingScripts ownerState
          (seizingBlock .conway [1]) (some ()) staged tx →
        OwnersSigned sumCrypto seizingCodec staged.utxo tx) ↔
      ∀ staged tx, AppliedTo sumCrypto seizingCodec failingScripts ownerState
          (seizingBlock .conway [1]) (some ()) staged tx →
        UncheckedPart sumCrypto seizingCodec staged.utxo tx) := by
  have hok : (applyBlockValidated sumCrypto seizingCodec failingScripts ownerState
      (seizingBlock .conway [1]) (some ())).isOk = true := by decide +kernel
  obtain ⟨applied, haccepted⟩ := exists_ok_iff_isOk.mpr hok
  exact ⟨applied, haccepted, ownersSigned_iff sumCrypto seizingCodec failingScripts ownerState
    applied (seizingBlock .conway [1]) (some ()) haccepted (by decide)⟩

/-- The transaction of the block, decoded. -/
def seizingTx : DecodedTx Unit where
  id := 4
  size := 103
  body := seizingBody
  outputRawSizes := some []
  collateralReturnRawSize := none
  witnessBytes := some [0]
  auxiliaryData := none
  isValid := some false

/-- A Conway block without any signature is accepted and takes the owner's entry as
collateral. -/
theorem collateral_seized :
    (applyBlockValidated sumCrypto seizingCodec failingScripts ownerState
      (seizingBlock .conway [0]) (some ())).isOk = true ∧
    (∀ tx ∈ (seizingBlock .conway [0]).transactions, tx.witnesses.isSome) ∧
    AppliedTo sumCrypto seizingCodec failingScripts ownerState (seizingBlock .conway [0])
      (some ()) ⟨ownerUtxo, ()⟩ seizingTx ∧
    ¬ OwnersSigned sumCrypto seizingCodec ownerUtxo seizingTx := by
  refine ⟨by decide +kernel, by decide, ⟨[], [], rfl, rfl⟩, ?_⟩
  rintro ⟨bytes, witnesses, hbytes, hdecoded, hsigned⟩
  cases hbytes
  cases hdecoded
  have howner := hsigned ⟨3, 0⟩ (by decide) (.alonzo ownerAddress (.coin 10000000) none)
    (by decide +kernel)
  obtain ⟨witness, hmem, _⟩ := howner.1 5 (by decide +kernel)
  cases hmem

end Yggdrasil.Ledger
