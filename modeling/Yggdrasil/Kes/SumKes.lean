import Yggdrasil.Ledger.Types

/-!
# Key-evolving signatures by sum composition

`crates/crypto/src/sum_kes.rs`.  A key of depth `d` serves `2 ^ d` periods; it is a byte string that
nests the current child key, the seed of the right subtree and the verification keys of the two
subtrees.  Keys and signatures are kept as byte strings of the length that their depth prescribes,
and their parts are cut out at the offsets of the source.

Ed25519 and the hash are given functions; a scheme carries the law that what is signed verifies.
Periods are natural numbers: up to depth 31 no 32-bit sum of the source wraps.  Key generation and
derivation return a `Result` in the source but have no failing branch.  Wiping memory on drop is not
modelled.
-/

namespace Yggdrasil.Kes

open Ledger (Bytes)

/-- A byte array of fixed length. -/
abbrev Octets (count : Nat) := { bytes : Bytes // bytes.length = count }

namespace Octets

/-- The bytes from `start` on, `count` of them. -/
def slice {total : Nat} (data : Octets total) (start count : Nat) (hfits : start + count ≤ total) :
    Octets count :=
  ⟨(data.1.drop start).take count, by
    have hlength := data.2
    simp only [List.length_take, List.length_drop]
    omega⟩

/-- A part is found again at its offset. -/
theorem slice_eq_part {total start count : Nat} {data : Octets total}
    {hfits : start + count ≤ total} (before : Bytes) (part : Octets count) (after : Bytes)
    (hdata : data.1 = before ++ (part.1 ++ after)) (hstart : before.length = start) :
    data.slice start count hfits = part := by
  obtain ⟨bytes, rfl⟩ := part
  refine Subtype.ext ?_
  change (data.1.drop start).take bytes.length = bytes
  rw [hdata, ← hstart, List.drop_left, List.take_left]

/-- A field that was filled with zeros. -/
def zeroed (count : Nat) : Octets count := ⟨List.replicate count 0, List.length_replicate⟩

end Octets

inductive CryptoError where
  | invalidKesPeriod (period : Nat)
  | kesVerificationKeyMismatch
  | invalidVerificationKey
  | signatureVerificationFailed
deriving DecidableEq, Repr

/-- The hash and the single-period scheme; a signature verifies under the key of its seed. -/
structure Scheme where
  hashBytes256 : Bytes → Octets 32
  verificationKey : Octets 32 → Octets 32
  sign : Octets 32 → Bytes → Octets 64
  verify : Octets 32 → Bytes → Octets 64 → Except CryptoError Unit
  verify_sign : ∀ seed message, verify (verificationKey seed) message (sign seed message) = .ok ()

/-! ## Layout -/

def skSize : Nat → Nat
  | 0 => 32
  | depth + 1 => skSize depth + 32 + 2 * 32

def expectedSize (depth : Nat) : Nat := 64 + depth * (2 * 32)

abbrev SumKesSigningKey (depth : Nat) := Octets (skSize depth)

abbrev SumKesSignature (depth : Nat) := Octets (expectedSize depth)

/-- `sk_child || seed_right || vk_left || vk_right`. -/
def assembleKey {depth : Nat} (child : SumKesSigningKey depth)
    (seedRight vkLeft vkRight : Octets 32) : SumKesSigningKey (depth + 1) :=
  ⟨child.1 ++ seedRight.1 ++ vkLeft.1 ++ vkRight.1, by
    simp only [List.length_append, child.2, seedRight.2, vkLeft.2, vkRight.2, skSize]⟩

/-- `child_sig || vk_left || vk_right`. -/
def assembleSignature {depth : Nat} (child : SumKesSignature depth) (vkLeft vkRight : Octets 32) :
    SumKesSignature (depth + 1) :=
  ⟨child.1 ++ vkLeft.1 ++ vkRight.1, by
    simp only [List.length_append, child.2, vkLeft.2, vkRight.2, expectedSize]
    omega⟩

section

variable {depth : Nat}

def extractChildSk (sk : SumKesSigningKey (depth + 1)) : SumKesSigningKey depth :=
  Octets.slice sk 0 (skSize depth) (by simp only [skSize]; omega)

def extractSeedRight (sk : SumKesSigningKey (depth + 1)) : Octets 32 :=
  Octets.slice sk (skSize depth) 32 (by simp only [skSize]; omega)

def extractVkLeftFromSk (sk : SumKesSigningKey (depth + 1)) : Octets 32 :=
  Octets.slice sk (skSize depth + 32) 32 (by simp only [skSize]; omega)

def extractVkRightFromSk (sk : SumKesSigningKey (depth + 1)) : Octets 32 :=
  Octets.slice sk (skSize depth + 32 + 32) 32 (by simp only [skSize]; omega)

/-- The Ed25519 signature at the front. -/
def baseSignature (sig : SumKesSignature depth) : Octets 64 :=
  Octets.slice sig 0 64 (by simp only [expectedSize]; omega)

/-- The left verification key of the outermost level. -/
def vkLeft (sig : SumKesSignature (depth + 1)) : Octets 32 :=
  Octets.slice sig (64 + depth * (2 * 32)) 32 (by simp only [expectedSize]; omega)

def vkRight (sig : SumKesSignature (depth + 1)) : Octets 32 :=
  Octets.slice sig (64 + depth * (2 * 32) + 32) 32 (by simp only [expectedSize]; omega)

/-- The signature without the outermost pair. -/
def childSignature (sig : SumKesSignature (depth + 1)) : SumKesSignature depth :=
  Octets.slice sig 0 (expectedSize depth) (by simp only [expectedSize]; omega)

variable (child : SumKesSigningKey depth) (seed left right : Octets 32)

@[simp] theorem extractChildSk_assembleKey :
    extractChildSk (assembleKey child seed left right) = child :=
  Octets.slice_eq_part [] child (seed.1 ++ left.1 ++ right.1) (by simp [assembleKey]) rfl

@[simp] theorem extractSeedRight_assembleKey :
    extractSeedRight (assembleKey child seed left right) = seed :=
  Octets.slice_eq_part child.1 seed (left.1 ++ right.1) (by simp [assembleKey]) child.2

@[simp] theorem extractVkLeftFromSk_assembleKey :
    extractVkLeftFromSk (assembleKey child seed left right) = left :=
  Octets.slice_eq_part (child.1 ++ seed.1) left right.1 (by simp [assembleKey])
    (by simp [child.2, seed.2])

@[simp] theorem extractVkRightFromSk_assembleKey :
    extractVkRightFromSk (assembleKey child seed left right) = right :=
  Octets.slice_eq_part (child.1 ++ seed.1 ++ left.1) right [] (by simp [assembleKey])
    (by simp [child.2, seed.2, left.2])

variable (childSig : SumKesSignature depth)

@[simp] theorem childSignature_assembleSignature :
    childSignature (assembleSignature childSig left right) = childSig :=
  Octets.slice_eq_part [] childSig (left.1 ++ right.1) (by simp [assembleSignature]) rfl

@[simp] theorem vkLeft_assembleSignature : vkLeft (assembleSignature childSig left right) = left :=
  Octets.slice_eq_part childSig.1 left right.1 (by simp [assembleSignature]) childSig.2

@[simp] theorem vkRight_assembleSignature :
    vkRight (assembleSignature childSig left right) = right :=
  Octets.slice_eq_part (childSig.1 ++ left.1) right [] (by simp [assembleSignature])
    (by rw [List.length_append, childSig.2, left.2, expectedSize])

theorem baseSignature_childSignature (sig : SumKesSignature (depth + 1)) :
    baseSignature (childSignature sig) = baseSignature sig := by
  refine Subtype.ext ?_
  simp only [baseSignature, childSignature, Octets.slice, List.drop_zero, List.take_take]
  congr 1
  simp only [expectedSize]
  omega

end

/-! ## The scheme of the source -/

section

variable (scheme : Scheme)

/-- The seeds of the left and the right subtree. -/
def expandSeed (seed : Octets 32) : Octets 32 × Octets 32 :=
  (scheme.hashBytes256 (0x01 :: seed.1), scheme.hashBytes256 (0x02 :: seed.1))

def hashPairOfVkeys (vkLeft vkRight : Octets 32) : Octets 32 :=
  scheme.hashBytes256 (vkLeft.1 ++ vkRight.1)

def deriveSumKesVk : (depth : Nat) → SumKesSigningKey depth → Octets 32
  | 0, sk => scheme.verificationKey sk
  | _ + 1, sk => hashPairOfVkeys scheme (extractVkLeftFromSk sk) (extractVkRightFromSk sk)

def genSumKesSigningKey : (depth : Nat) → Octets 32 → SumKesSigningKey depth
  | 0, seed => seed
  | depth + 1, seed =>
    let (leftSeed, rightSeed) := expandSeed scheme seed
    let skLeft := genSumKesSigningKey depth leftSeed
    let skRight := genSumKesSigningKey depth rightSeed
    assembleKey skLeft rightSeed (deriveSumKesVk scheme depth skLeft)
      (deriveSumKesVk scheme depth skRight)

def signSumKes : (depth : Nat) → SumKesSigningKey depth → (period : Nat) → (message : Bytes) →
    Except CryptoError (SumKesSignature depth)
  | 0, sk, period, message =>
    if period ≥ 2 ^ 0 then .error (.invalidKesPeriod period) else .ok (scheme.sign sk message)
  | depth + 1, sk, period, message =>
    let total := 2 ^ (depth + 1)
    if period ≥ total then .error (.invalidKesPeriod period)
    else do
      let half := total / 2
      let childPeriod := if period < half then period else period - half
      let childSig ← signSumKes depth (extractChildSk sk) childPeriod message
      return assembleSignature childSig (extractVkLeftFromSk sk) (extractVkRightFromSk sk)

def verifySumKes : (depth : Nat) → (vk : Octets 32) → (period : Nat) → (message : Bytes) →
    SumKesSignature depth → Except CryptoError Unit
  | 0, vk, _, message, sig => scheme.verify vk message (baseSignature sig)
  | depth + 1, vk, period, message, sig =>
    let totalPeriods := 2 ^ (depth + 1)
    if period ≥ totalPeriods then .error (.invalidKesPeriod period)
    else if vk ≠ hashPairOfVkeys scheme (vkLeft sig) (vkRight sig) then
      .error .kesVerificationKeyMismatch
    else
      let half := totalPeriods / 2
      if period < half then verifySumKes depth (vkLeft sig) period message (childSignature sig)
      else verifySumKes depth (vkRight sig) (period - half) message (childSignature sig)

/-- Evolve a key from its current period to the next. -/
def updateSumKes : (depth : Nat) → SumKesSigningKey depth → (currentPeriod : Nat) →
    Option (SumKesSigningKey depth)
  | 0, _, _ => none
  | depth + 1, sk, currentPeriod =>
    let total := 2 ^ (depth + 1)
    if currentPeriod + 1 ≥ total then none
    else
      let half := total / 2
      match compare (currentPeriod + 1) half with
      | .lt =>
        (updateSumKes depth (extractChildSk sk) currentPeriod).map fun newChild =>
          assembleKey newChild (extractSeedRight sk) (extractVkLeftFromSk sk)
            (extractVkRightFromSk sk)
      | .eq =>
        some (assembleKey (genSumKesSigningKey scheme depth (extractSeedRight sk))
          (Octets.zeroed 32) (extractVkLeftFromSk sk) (extractVkRightFromSk sk))
      | .gt =>
        (updateSumKes depth (extractChildSk sk) (currentPeriod - half)).map fun newChild =>
          assembleKey newChild (Octets.zeroed 32) (extractVkLeftFromSk sk)
            (extractVkRightFromSk sk)

/-- The key after the updates of the periods `0, …, count - 1`. -/
def evolve (depth : Nat) (sk : SumKesSigningKey depth) : (count : Nat) →
    Option (SumKesSigningKey depth)
  | 0 => some sk
  | count + 1 => (evolve depth sk count).bind fun current =>
    updateSumKes scheme depth current count

end

/-! ## The key of each period -/

section

variable (scheme : Scheme)

/-- The verification key of a whole tree. -/
def rootVk (depth : Nat) (seed : Octets 32) : Octets 32 :=
  deriveSumKesVk scheme depth (genSumKesSigningKey scheme depth seed)

/-- The seed of the leaf that signs in a period. -/
def leafSeed : (depth : Nat) → (seed : Octets 32) → (period : Nat) → Octets 32
  | 0, seed, _ => seed
  | depth + 1, seed, period =>
    if period < 2 ^ depth then leafSeed depth (expandSeed scheme seed).1 period
    else leafSeed depth (expandSeed scheme seed).2 (period - 2 ^ depth)

/-- The key that a tree is evolved to by its periods; the seed of the right subtree is kept as long
as that subtree is not entered. -/
def keyAt : (depth : Nat) → (seed : Octets 32) → (period : Nat) → SumKesSigningKey depth
  | 0, seed, _ => seed
  | depth + 1, seed, period =>
    let (leftSeed, rightSeed) := expandSeed scheme seed
    if period < 2 ^ depth then
      assembleKey (keyAt depth leftSeed period) rightSeed (rootVk scheme depth leftSeed)
        (rootVk scheme depth rightSeed)
    else
      assembleKey (keyAt depth rightSeed (period - 2 ^ depth)) (Octets.zeroed 32)
        (rootVk scheme depth leftSeed) (rootVk scheme depth rightSeed)

variable {period : Nat}

theorem keyAt_left {depth : Nat} {seed : Octets 32} (hleft : period < 2 ^ depth) :
    keyAt scheme (depth + 1) seed period =
      assembleKey (keyAt scheme depth (expandSeed scheme seed).1 period) (expandSeed scheme seed).2
        (rootVk scheme depth (expandSeed scheme seed).1)
        (rootVk scheme depth (expandSeed scheme seed).2) := by
  simp only [keyAt, if_pos hleft]

theorem keyAt_right {depth : Nat} {seed : Octets 32} (hright : ¬ period < 2 ^ depth) :
    keyAt scheme (depth + 1) seed period =
      assembleKey (keyAt scheme depth (expandSeed scheme seed).2 (period - 2 ^ depth))
        (Octets.zeroed 32) (rootVk scheme depth (expandSeed scheme seed).1)
        (rootVk scheme depth (expandSeed scheme seed).2) := by
  simp only [keyAt, if_neg hright]

variable (depth : Nat) (seed : Octets 32)

theorem gen_eq_keyAt_zero : genSumKesSigningKey scheme depth seed = keyAt scheme depth seed 0 := by
  induction depth generalizing seed with
  | zero => rfl
  | succ depth ih =>
    rw [keyAt_left scheme (Nat.two_pow_pos depth), ← ih]
    rfl

theorem rootVk_succ :
    rootVk scheme (depth + 1) seed =
      hashPairOfVkeys scheme (rootVk scheme depth (expandSeed scheme seed).1)
        (rootVk scheme depth (expandSeed scheme seed).2) := by
  rw [rootVk, genSumKesSigningKey, deriveSumKesVk, extractVkLeftFromSk_assembleKey,
    extractVkRightFromSk_assembleKey]
  rfl

theorem deriveSumKesVk_keyAt (period : Nat) :
    deriveSumKesVk scheme depth (keyAt scheme depth seed period) = rootVk scheme depth seed := by
  cases depth with
  | zero => rfl
  | succ depth =>
    rw [rootVk_succ]
    by_cases hleft : period < 2 ^ depth
    · simp [keyAt_left scheme hleft, deriveSumKesVk]
    · simp [keyAt_right scheme hleft, deriveSumKesVk]

/-- The step lemma: an update leads from the key of a period to that of the next one, and there is
none after the last period. -/
theorem updateSumKes_keyAt (period : Nat) :
    updateSumKes scheme depth (keyAt scheme depth seed period) period =
      if period + 1 < 2 ^ depth then some (keyAt scheme depth seed (period + 1)) else none := by
  induction depth generalizing seed period with
  | zero => simp [updateSumKes]
  | succ depth ih =>
    have hhalf : 2 ^ (depth + 1) / 2 = 2 ^ depth := by omega
    simp only [updateSumKes, hhalf]
    by_cases hlast : period + 1 ≥ 2 ^ (depth + 1)
    · rw [if_pos hlast, if_neg (by omega)]
    rw [if_neg hlast, if_pos (by omega)]
    rcases lt_trichotomy (period + 1) (2 ^ depth) with hbefore | hswitch | hafter
    · -- still in the left subtree
      rw [compare_lt_iff_lt.mpr hbefore, keyAt_left scheme (by omega), keyAt_left scheme hbefore]
      simp [ih, hbefore]
    · -- the right subtree is entered
      rw [compare_eq_iff_eq.mpr hswitch, keyAt_left scheme (by omega),
        keyAt_right scheme (by omega)]
      simp [hswitch, gen_eq_keyAt_zero]
    · rw [compare_gt_iff_gt.mpr hafter, keyAt_right scheme (by omega),
        keyAt_right scheme (by omega)]
      have hnext : period - 2 ^ depth + 1 < 2 ^ depth := by omega
      have hsame : period + 1 - 2 ^ depth = period - 2 ^ depth + 1 := by omega
      simp [ih, hnext, hsame]

theorem evolve_gen (hperiod : period < 2 ^ depth) :
    evolve scheme depth (genSumKesSigningKey scheme depth seed) period =
      some (keyAt scheme depth seed period) := by
  induction period with
  | zero => rw [evolve, gen_eq_keyAt_zero]
  | succ period ih =>
    rw [evolve, ih (by omega), Option.bind_some, updateSumKes_keyAt, if_pos hperiod]

/-! ## Signing and verifying -/

theorem verify_sign_keyAt (hperiod : period < 2 ^ depth) (message : Bytes) :
    ∃ sig, signSumKes scheme depth (keyAt scheme depth seed period) period message = .ok sig ∧
      verifySumKes scheme depth (rootVk scheme depth seed) period message sig = .ok () := by
  induction depth generalizing seed period with
  | zero =>
    refine ⟨scheme.sign seed message, ?_, ?_⟩
    · rw [signSumKes, if_neg (by omega), keyAt]
    · have hbase : @baseSignature 0 (scheme.sign seed message) = scheme.sign seed message :=
        Octets.slice_eq_part [] _ [] (by simp) rfl
      change scheme.verify (scheme.verificationKey seed) message (@baseSignature 0 _) = .ok ()
      rw [hbase]
      exact scheme.verify_sign seed message
  | succ depth ih =>
    have hhalf : 2 ^ (depth + 1) / 2 = 2 ^ depth := by omega
    let vkLeft := rootVk scheme depth (expandSeed scheme seed).1
    let vkRight := rootVk scheme depth (expandSeed scheme seed).2
    by_cases hleft : period < 2 ^ depth
    · obtain ⟨sig, hsign, hverify⟩ := ih (expandSeed scheme seed).1 hleft
      rw [keyAt_left scheme hleft, rootVk_succ]
      refine ⟨assembleSignature sig vkLeft vkRight, ?_, ?_⟩
      · simp only [signSumKes, hhalf, if_neg (not_le.mpr hperiod), if_pos hleft,
          extractChildSk_assembleKey, hsign, extractVkLeftFromSk_assembleKey,
          extractVkRightFromSk_assembleKey]
        rfl
      · simp [verifySumKes, hhalf, hperiod, hleft, hverify, vkLeft, vkRight]
    · obtain ⟨sig, hsign, hverify⟩ :=
        ih (expandSeed scheme seed).2 (show period - 2 ^ depth < 2 ^ depth by omega)
      rw [keyAt_right scheme hleft, rootVk_succ]
      refine ⟨assembleSignature sig vkLeft vkRight, ?_, ?_⟩
      · simp only [signSumKes, hhalf, if_neg (not_le.mpr hperiod), if_neg hleft,
          extractChildSk_assembleKey, hsign, extractVkLeftFromSk_assembleKey,
          extractVkRightFromSk_assembleKey]
        rfl
      · simp [verifySumKes, hhalf, hperiod, hleft, hverify, vkLeft, vkRight]

/-- The pairs of verification keys at the inner nodes of a tree. -/
def treePairs : (depth : Nat) → (seed : Octets 32) → List (Octets 32 × Octets 32)
  | 0, _ => []
  | depth + 1, seed =>
    let (leftSeed, rightSeed) := expandSeed scheme seed
    (rootVk scheme depth leftSeed, rootVk scheme depth rightSeed) ::
      (treePairs depth leftSeed ++ treePairs depth rightSeed)

/-- The pairs of verification keys that a signature carries. -/
def signaturePairs : (depth : Nat) → SumKesSignature depth → List (Octets 32 × Octets 32)
  | 0, _ => []
  | depth + 1, sig => (vkLeft sig, vkRight sig) :: signaturePairs depth (childSignature sig)

/-- The hash does not confuse a pair of the tree with a pair of the signature. -/
def CollisionFree (depth : Nat) (seed : Octets 32) (sig : SumKesSignature depth) : Prop :=
  ∀ pair ∈ treePairs scheme depth seed, ∀ other ∈ signaturePairs depth sig,
    hashPairOfVkeys scheme other.1 other.2 = hashPairOfVkeys scheme pair.1 pair.2 → other = pair

/-- A signature that verifies in a period was made with the leaf key of that period. -/
theorem base_verifies (period : Nat) (message : Bytes) (sig : SumKesSignature depth)
    (hfree : CollisionFree scheme depth seed sig)
    (hverify : verifySumKes scheme depth (rootVk scheme depth seed) period message sig = .ok ()) :
    scheme.verify (scheme.verificationKey (leafSeed scheme depth seed period)) message
      (baseSignature sig) = .ok () := by
  induction depth generalizing seed period with
  | zero => exact hverify
  | succ depth ih =>
    have hhalf : 2 ^ (depth + 1) / 2 = 2 ^ depth := by rw [pow_succ]; omega
    simp only [verifySumKes, hhalf, rootVk_succ] at hverify
    split at hverify
    · exact absurd hverify nofun
    split at hverify
    · exact absurd hverify nofun
    rename_i hmatch
    -- the outermost pair is that of the tree, so the child is verified under a root of a subtree
    have hpair := hfree _ List.mem_cons_self _ List.mem_cons_self (not_not.mp hmatch).symm
    obtain ⟨hleftKey, hrightKey⟩ := Prod.mk.inj hpair
    rw [← baseSignature_childSignature sig, leafSeed]
    split at hverify
    · rename_i hleft
      rw [if_pos hleft]
      rw [hleftKey] at hverify
      refine ih _ _ _ (fun pair hpairMem other hother => ?_) hverify
      exact hfree pair (List.mem_cons_of_mem _ (List.mem_append_left _ hpairMem)) other
        (List.mem_cons_of_mem _ hother)
    · rename_i hright
      rw [if_neg hright]
      rw [hrightKey] at hverify
      refine ih _ _ _ (fun pair hpairMem other hother => ?_) hverify
      exact hfree pair (List.mem_cons_of_mem _ (List.mem_append_right _ hpairMem)) other
        (List.mem_cons_of_mem _ hother)

/-- **Signing works in every period.**  After as many updates as the period says there is a key, its
verification key is the original one and what it signs verifies in the period; the last period has
no update; and a signature that verifies in some period carries, unless the hash collides, a base
signature of that period's leaf key. -/
theorem kes_works_in_every_period (depth : Nat) (seed : Octets 32) (period : Fin (2 ^ depth))
    (message : Bytes) :
    (∃ key sig, evolve scheme depth (genSumKesSigningKey scheme depth seed) period = some key ∧
      deriveSumKesVk scheme depth key = rootVk scheme depth seed ∧
      signSumKes scheme depth key period message = .ok sig ∧
      verifySumKes scheme depth (rootVk scheme depth seed) period message sig = .ok () ∧
      (period.val = 2 ^ depth - 1 → updateSumKes scheme depth key period = none)) ∧
    ∀ (forged : SumKesSignature depth) (other : Nat) (text : Bytes),
      CollisionFree scheme depth seed forged →
      verifySumKes scheme depth (rootVk scheme depth seed) other text forged = .ok () →
      scheme.verify (scheme.verificationKey (leafSeed scheme depth seed other)) text
        (baseSignature forged) = .ok () := by
  refine ⟨?_, fun forged other text hfree hverify =>
    base_verifies scheme depth seed other text forged hfree hverify⟩
  obtain ⟨sig, hsign, hverify⟩ := verify_sign_keyAt scheme depth seed period.isLt message
  refine ⟨keyAt scheme depth seed period, sig, evolve_gen scheme depth seed period.isLt,
    deriveSumKesVk_keyAt scheme depth seed period, hsign, hverify, ?_⟩
  intro hlast
  rw [updateSumKes_keyAt, if_neg (by omega)]

end

/-! ## A scheme -/

/-- The first bytes, filled up with zeros. -/
def firstOctets (count : Nat) (bytes : Bytes) : Octets count :=
  ⟨(bytes ++ List.replicate count 0).take count, by simp⟩

/-- A scheme that hides nothing: a verification key is the seed behind a mark, a signature the key
before the message. -/
def openScheme : Scheme where
  hashBytes256 := firstOctets 32
  verificationKey seed := firstOctets 32 (0xff :: seed.1)
  sign seed message := firstOctets 64 (0xff :: seed.1.take 31 ++ message)
  verify vk message sig := if sig = firstOctets 64 (vk.1 ++ message) then .ok () else
    .error .signatureVerificationFailed
  verify_sign seed message := by
    have hkey : (firstOctets 32 (0xff :: seed.1)).1 = 0xff :: seed.1.take 31 := by
      change 0xff :: (seed.1 ++ List.replicate 32 0).take 31 = _
      rw [List.take_append_of_le_length (by rw [seed.2]; decide)]
    rw [hkey]
    exact if_pos rfl

def openSeed : Octets 32 := firstOctets 32 [5]

/-- In the third of four periods, after a switch to the right subtree. -/
theorem openScheme_works :
    ∃ key sig, evolve openScheme 2 (genSumKesSigningKey openScheme 2 openSeed) 2 = some key ∧
      deriveSumKesVk openScheme 2 key = rootVk openScheme 2 openSeed ∧
      signSumKes openScheme 2 key 2 [7] = .ok sig ∧
      verifySumKes openScheme 2 (rootVk openScheme 2 openSeed) 2 [7] sig = .ok () := by
  obtain ⟨⟨key, sig, hevolve, hkey, hsign, hverify, -⟩, -⟩ :=
    kes_works_in_every_period openScheme 2 openSeed 2 [7]
  exact ⟨key, sig, hevolve, hkey, hsign, hverify⟩

end Yggdrasil.Kes
