import Yggdrasil.Ledger.Cbor

/-!
# Addresses

Address parsing from `crates/ledger/src/types.rs`: the Shelley address kinds by their header
nibble, and the address root inside a Byron address.
-/

namespace Yggdrasil.Ledger

/-- A digest read from its big-endian bytes. -/
def digestOfBytes (count : Nat) (bytes : Bytes) : BitVec (8 * count) :=
  BitVec.ofNat (8 * count) (natOfBytesBe bytes)

def isValidNetworkId (network : UInt8) : Bool := network = 0 || network = 1

/-- Parse the 29-byte form of a reward account. -/
def RewardAccount.fromBytes (bytes : Bytes) : Option RewardAccount := do
  guard (bytes.length = 29)
  let header ← bytes.head?
  let network := header &&& 0x0f
  guard (isValidNetworkId network)
  let hash : Hash28 := digestOfBytes 28 (bytes.drop 1)
  if header >>> 4 = 0x0e then
    return ⟨network, .addrKeyHash hash⟩
  else if header >>> 4 = 0x0f then
    return ⟨network, .scriptHash hash⟩
  else
    none

inductive Address where
  | base (network : UInt8) (payment staking : StakeCredential)
  | enterprise (network : UInt8) (payment : StakeCredential)
  | pointer (network : UInt8) (payment : StakeCredential) (slot txIndex certIndex : UInt64)
  | reward (account : RewardAccount)
  | byron (raw : Bytes)
deriving DecidableEq, Repr

/-- Read a variable-length natural, seven bits a byte; bits shifted out at the top are lost.
The result is the value and the bytes after it. -/
def decodeVariableNat (result : UInt64) : Bytes → Option (UInt64 × Bytes)
  | [] => none
  | byte :: rest =>
    let next := (result <<< 7) ||| (byte &&& 0x7f).toUInt64
    if byte &&& 0x80 = 0 then some (next, rest) else decodeVariableNat next rest

namespace Address

/-- A payment or staking credential of the given kind. -/
def credentialOf (script : Bool) (hash : Hash28) : StakeCredential :=
  if script then .scriptHash hash else .addrKeyHash hash

/-- Parse an address; `none` for an unknown header nibble or a wrong length. -/
def fromBytes (bytes : Bytes) : Option Address := do
  let header ← bytes.head?
  let addrType := header >>> 4
  let network := header &&& 0x0f
  let payHash : Hash28 := digestOfBytes 28 ((bytes.drop 1).take 28)
  if addrType ≤ 0x3 then
    guard (isValidNetworkId network)
    guard (bytes.length = 57)
    let stkHash : Hash28 := digestOfBytes 28 (bytes.drop 29)
    return base network (credentialOf (addrType &&& 0x01 ≠ 0) payHash)
      (credentialOf (addrType &&& 0x02 ≠ 0) stkHash)
  else if addrType ≤ 0x5 then
    guard (isValidNetworkId network)
    guard (30 ≤ bytes.length)
    let (slot, rest) ← decodeVariableNat 0 (bytes.drop 29)
    let (txIndex, rest) ← decodeVariableNat 0 rest
    let (certIndex, rest) ← decodeVariableNat 0 rest
    guard rest.isEmpty
    return pointer network (credentialOf (addrType ≠ 0x4) payHash) slot txIndex certIndex
  else if addrType ≤ 0x7 then
    guard (isValidNetworkId network)
    guard (bytes.length = 29)
    return enterprise network (credentialOf (addrType ≠ 0x6) payHash)
  else if addrType = 0x8 then
    return byron bytes
  else if addrType = 0xe ∨ addrType = 0xf then
    return reward (← RewardAccount.fromBytes bytes)
  else
    none

/-- Whether a key (and not a script) locks the address. -/
def isVkeyLocked : Address → Bool
  | base _ payment _ => payment.isKeyHash
  | enterprise _ payment => payment.isKeyHash
  | pointer _ payment _ _ _ => payment.isKeyHash
  | reward _ => false
  | byron _ => true

/-- The payment credential; a reward address gives its staking credential. -/
def paymentCredential : Address → Option StakeCredential
  | base _ payment _ => some payment
  | enterprise _ payment => some payment
  | pointer _ payment _ _ _ => some payment
  | reward account => some account.credential
  | byron _ => none

end Address

open Cbor in
/-- Go on only when the condition holds; the caller maps the error to `None`. -/
def expectThat (condition : Bool) : DecodeM Unit :=
  if condition then pure () else .fail (.other "byron address")

open Cbor in
/-- The array of two, tag 24 and byte string around the payload of a Byron address. -/
def byronPayload : DecodeM Bytes := do
  expectThat ((← readArray) = 2)
  expectThat ((← readTag) = 24)
  readBytes

open Cbor in
/-- The 28-byte root in the payload of a Byron address. -/
def byronPayloadRoot : DecodeM Hash28 := do
  expectThat ((← readArray) = 3)
  let root ← readBytes
  expectThat (root.length = 28)
  return digestOfBytes 28 root

/-- The address root of raw Byron address bytes. -/
def byronAddressRoot (raw : Bytes) : Result (Option Hash28) := do
  match ← Result.toOption (byronPayload.outcome (.new raw)) with
  | none => return none
  | some payload => Result.toOption (byronPayloadRoot.outcome (.new payload))

open Cbor in
/-- The size of the attributes in the payload of a Byron address.  The optional tag before the
root is read with `.ok()`: when there is none the read has already taken one byte. -/
def byronPayloadAttrsSize : DecodeM Nat := do
  expectThat (2 ≤ (← readArray))
  let _ ← attempt readTag
  let _ ← readBytes
  let attrsStart ← position
  skip
  let attrsEnd ← position
  return attrsEnd - attrsStart

/-- The size of the attributes of a Byron address; `none` for other addresses. -/
def byronAddrAttrsSize (raw : Bytes) : Result (Option Nat) := do
  match raw.head? with
  | none => return none
  | some header =>
    if header &&& 0xf0 ≠ 0x80 then
      return none
    else
      match ← Result.toOption (byronPayload.outcome (.new raw)) with
      | none => return none
      | some payload => Result.toOption (byronPayloadAttrsSize.outcome (.new payload))

end Yggdrasil.Ledger
