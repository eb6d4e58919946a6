import Yggdrasil.Ledger.Transaction

/-!
# Key witnesses

Which key hashes a transaction has to witness and how its witnesses are checked
(`witnesses.rs` and `validate_witnesses_if_present` in `state/phase1_validation.rs`).  Hashing
and signature verification are given functions.
-/

namespace Yggdrasil.Ledger

open Library

/-- The cryptographic functions. -/
structure Crypto where
  hashBytes224 : Bytes → Hash28
  sha3 : Bytes → Hash32
  /-- `verify vkey message signature`. -/
  verify : Hash32 → Hash32 → BitVec 512 → Bool

/-- A signature with the key that made it. -/
structure VkeyWitness where
  vkey : Hash32
  signature : BitVec 512
deriving DecidableEq, Repr

/-- A signature for a Byron address. -/
structure BootstrapWitness where
  publicKey : Hash32
  signature : BitVec 512
  chainCode : Hash32
  attributes : Bytes
deriving DecidableEq, Repr

/-- A decoded witness set; of a redeemer only its execution units are read here. -/
structure WitnessSet where
  vkeyWitnesses : List VkeyWitness
  bootstrapWitnesses : List BootstrapWitness
  redeemers : List ExUnits
deriving DecidableEq, Repr

def vkeyHash (crypto : Crypto) (vkey : Hash32) : Hash28 :=
  crypto.hashBytes224 (bytesOfDigest 32 vkey)

/-- The Byron address root that a bootstrap witness reconstructs. -/
def bootstrapWitnessKeyHash (crypto : Crypto) (witness : BootstrapWitness) : Hash28 :=
  crypto.hashBytes224 (bytesOfDigest 32 (crypto.sha3
    ([0x83, 0x00, 0x82, 0x00, 0x58, 0x40] ++ bytesOfDigest 32 witness.publicKey ++
      bytesOfDigest 32 witness.chainCode ++ witness.attributes)))

namespace WitnessSet

def vkeyHashes (crypto : Crypto) (witnesses : WitnessSet) : List Hash28 :=
  witnesses.vkeyWitnesses.map fun witness => vkeyHash crypto witness.vkey

/-- The address roots of the bootstrap witnesses. -/
def bootstrapHashes (crypto : Crypto) (witnesses : WitnessSet) : List Hash28 :=
  witnesses.bootstrapWitnesses.map (bootstrapWitnessKeyHash crypto)

end WitnessSet

/-! ## Required hashes -/

/-- The key that a certificate needs. -/
def requiredVkeyHashesFromCert : DCert → List Hash28
  | .accountRegistrationDeposit credential
  | .accountUnregistration credential
  | .accountUnregistrationDeposit credential
  | .delegationToStakePool credential
  | .delegationToDrep credential
  | .delegationToStakePoolAndDrep credential
  | .accountRegistrationDelegationToStakePool credential
  | .accountRegistrationDelegationToDrep credential
  | .accountRegistrationDelegationToStakePoolAndDrep credential
  | .committeeAuthorization credential
  | .committeeResignation credential
  | .drepRegistration credential
  | .drepUnregistration credential
  | .drepUpdate credential => credential.keyHash?.toList
  | .poolRegistration operator => [operator]
  | .poolRetirement operator => [operator]
  | .genesisDelegation genesisHash => [genesisHash]
  | .accountRegistration _ => []
  | .moveInstantaneousReward => []

def requiredVkeyHashesFromVoter : Voter → List Hash28
  | .committeeKeyHash hash | .drepKeyHash hash | .stakePool hash => [hash]
  | .committeeScript _ | .drepScript _ => []

/-- The key hash in the payment part of an address. -/
def paymentKeyHash (address : Bytes) : Option Hash28 :=
  (Address.fromBytes address).bind fun parsed =>
    parsed.paymentCredential.bind StakeCredential.keyHash?

def byronRoot (address : Bytes) : Result (Option Hash28) :=
  match Address.fromBytes address with
  | some (.byron raw) => byronAddressRoot raw
  | _ => .ok none

/-- The key hash of an output's payment credential, or the root of its Byron address. -/
def ownerHashes (address : Bytes) : Result (List Hash28) := do
  return (paymentKeyHash address).toList ++ (← byronRoot address).toList

/-- The hashes that one spending input asks for. -/
def inputHashes (utxo : MultiEraUtxo) (input : ShelleyTxIn) : Result (List Hash28) :=
  match utxo.lookup input with
  | none => .ok []
  | some txout => ownerHashes txout.address

def requiredVkeyHashesFromInputs (utxo : MultiEraUtxo) (inputs : List ShelleyTxIn) :
    Result (List Hash28) :=
  inputs.foldlM (fun required input => do return required ++ (← inputHashes utxo input)) []

/-- The delegates of those proposers that are genesis keys. -/
def requiredVkeyHashesFromPpup (genDelegs : KeyedMap Hash28 Hash28) (proposers : List Hash28) :
    List Hash28 :=
  proposers.filterMap genDelegs.lookup

/-- The hashes a transaction has to witness.  Collateral inputs are not among the sources. -/
def requiredVkeyHashes {Extra : Type} (era : ScriptEra) (genDelegs : KeyedMap Hash28 Hash28)
    (utxo : MultiEraUtxo) (body : TxBody Extra) : Result (List Hash28) := do
  let fromInputs ← requiredVkeyHashesFromInputs utxo body.inputs
  return fromInputs ++
    (body.certificates.getD []).flatMap requiredVkeyHashesFromCert ++
    (body.withdrawals.getD []).filterMap (fun withdrawal => withdrawal.1.credential.keyHash?) ++
    body.requiredSigners.getD [] ++
    match era with
    | .conway => (body.voters.getD []).flatMap requiredVkeyHashesFromVoter
    | _ => requiredVkeyHashesFromPpup genDelegs (body.updateProposers.getD [])

/-! ## Checking witnesses -/

def validateVkeyWitnesses (required provided : List Hash28) : Result Unit :=
  required.forM fun hash => rejectIf (hash ∉ provided) (.missingVKeyWitness hash)

def verifyVkeySignatures (crypto : Crypto) (txBodyHash : Hash32)
    (witnesses : List VkeyWitness) : Result Unit :=
  witnesses.forM fun witness =>
    rejectIf (¬ crypto.verify witness.vkey txBodyHash witness.signature)
      (.invalidVKeyWitnessSignature (vkeyHash crypto witness.vkey))

open Cbor in
/-- The attributes are one map; the position behind it. -/
def bootstrapAttributesEnd : DecodeM Nat := do
  let length ← readMap
  repeatTimes (do skip; skip) length.toNat
  position

/-- The attributes of a bootstrap witness are exactly one encoded map. -/
def checkBootstrapAttributes (attributes : Bytes) : Result Unit := do
  match ← Result.toOption (bootstrapAttributesEnd.outcome (.new attributes)) with
  | none => reject (.invalidBootstrapWitnessAttributes attributes)
  | some stop =>
    rejectIf (stop ≠ attributes.length) (.invalidBootstrapWitnessAttributes attributes)

def verifyBootstrapWitnesses (crypto : Crypto) (txBodyHash : Hash32)
    (witnesses : List BootstrapWitness) : Result Unit :=
  witnesses.forM fun witness => do
    checkBootstrapAttributes witness.attributes
    rejectIf (¬ crypto.verify witness.publicKey txBodyHash witness.signature)
      (.invalidBootstrapWitnessSignature (vkeyHash crypto witness.publicKey))

/-- Check a witness set against the required hashes.  Key hashes and address roots are provided
in one set. -/
def validateWitnesses (crypto : Crypto) (witnesses : WitnessSet) (required : List Hash28)
    (txBodyHash : Hash32) : Result Unit := do
  validateVkeyWitnesses required
    (witnesses.vkeyHashes crypto ++ witnesses.bootstrapHashes crypto)
  verifyVkeySignatures crypto txBodyHash witnesses.vkeyWitnesses
  verifyBootstrapWitnesses crypto txBodyHash witnesses.bootstrapWitnesses

/-! ## What the checks establish -/

variable {required : List Hash28}

/-- A spending input in the set puts the hashes of its owner among the required ones. -/
theorem requiredVkeyHashesFromInputs_spec {utxo : MultiEraUtxo} {inputs : List ShelleyTxIn}
    {start : List Hash28}
    (hrequired : inputs.foldlM (fun required input => do
      return required ++ (← inputHashes utxo input)) start = (.ok required : Result _)) :
    (∀ hash ∈ start, hash ∈ required) ∧
      ∀ input ∈ inputs, ∃ hashes, inputHashes utxo input = .ok hashes ∧
        ∀ hash ∈ hashes, hash ∈ required := by
  induction inputs generalizing start with
  | nil =>
    cases hrequired
    exact ⟨fun _ hmem => hmem, fun _ hmem => absurd hmem (List.not_mem_nil)⟩
  | cons input rest ih =>
    rw [List.foldlM_cons, bind_eq_ok] at hrequired
    obtain ⟨next, hfirst, hrest⟩ := hrequired
    obtain ⟨hashes, hhashes, hnext⟩ := bind_eq_ok.mp hfirst
    cases hnext
    obtain ⟨hkeep, hinputs⟩ := ih hrest
    refine ⟨fun hash hmem => hkeep hash (List.mem_append_left _ hmem), fun other hother => ?_⟩
    rcases List.mem_cons.mp hother with rfl | hlater
    · exact ⟨hashes, hhashes, fun hash hmem => hkeep hash (List.mem_append_right _ hmem)⟩
    · exact hinputs other hlater

theorem validateWitnesses_spec {crypto : Crypto} {witnesses : WitnessSet} {txBodyHash : Hash32}
    (hvalid : validateWitnesses crypto witnesses required txBodyHash = .ok ()) :
    (∀ hash ∈ required,
      hash ∈ witnesses.vkeyHashes crypto ∨ hash ∈ witnesses.bootstrapHashes crypto) ∧
    (∀ witness ∈ witnesses.vkeyWitnesses,
      crypto.verify witness.vkey txBodyHash witness.signature = true) ∧
    ∀ witness ∈ witnesses.bootstrapWitnesses,
      crypto.verify witness.publicKey txBodyHash witness.signature = true := by
  obtain ⟨_, hprovided, hrest⟩ := bind_eq_ok.mp hvalid
  obtain ⟨_, hkeys, hbootstrap⟩ := bind_eq_ok.mp hrest
  refine ⟨fun hash hmem => ?_, fun witness hmem => ?_, fun witness hmem => ?_⟩
  · have hcheck := rejectIf_eq_ok.mp (forM_eq_ok.mp hprovided hash hmem)
    rw [not_not, List.mem_append] at hcheck
    exact hcheck
  · exact not_not.mp (rejectIf_eq_ok.mp (forM_eq_ok.mp hkeys witness hmem))
  · obtain ⟨_, _, hsignature⟩ := bind_eq_ok.mp (forM_eq_ok.mp hbootstrap witness hmem)
    exact not_not.mp (rejectIf_eq_ok.mp hsignature)

end Yggdrasil.Ledger
