import Mathlib

/-!
# Core protocol types

The newtypes of `crates/ledger/src/types.rs` that ledger, storage and consensus share.  Slot,
block and epoch numbers are the machine's 64-bit words, so their additions wrap exactly as the
release build's do.  A fixed-width digest is a bit vector read big-endian, so that comparing
two digests as numbers is the byte-wise lexicographic order of the source.
-/

namespace Yggdrasil.Ledger

abbrev SlotNo := UInt64

abbrev BlockNo := UInt64

abbrev EpochNo := UInt64

/-- Raw bytes. -/
abbrev Bytes := List UInt8

abbrev Hash32 := BitVec 256

abbrev Hash28 := BitVec 224

/-- Blake2b-256 hash of a block header. -/
abbrev HeaderHash := Hash32

/-- Blake2b-256 hash of a serialized transaction body. -/
abbrev TxId := Hash32

/-- The bytes of a digest of `count` bytes, most significant first. -/
def bytesOfDigest (count : Nat) (digest : BitVec (8 * count)) : Bytes :=
  (List.range count).map fun index =>
    UInt8.ofBitVec (digest.extractLsb' (8 * (count - 1 - index)) 8)

/-- The natural number big-endian bytes denote. -/
def natOfBytesBe (bytes : Bytes) : Nat := bytes.foldl (fun acc byte => acc * 256 + byte.toNat) 0

theorem natOfBytesBe_lt (bytes : Bytes) : natOfBytesBe bytes < 256 ^ bytes.length := by
  induction bytes using List.reverseRecOn with
  | nil => decide
  | append_singleton front byte ih =>
    have hbyte : byte.toNat < 256 := byte.toNat_lt
    simp only [natOfBytesBe, List.foldl_append, List.foldl_cons, List.foldl_nil,
      List.length_append, List.length_singleton] at ih ⊢
    rw [Nat.pow_succ]
    omega

/-- A point on the chain: the genesis pseudo-block, or a block by slot and hash. -/
inductive Point where
  | origin
  | blockPoint (slot : SlotNo) (hash : HeaderHash)
deriving DecidableEq, Repr

namespace Point

/-- The slot number, or `none` for the origin. -/
def slot : Point → Option SlotNo
  | origin => none
  | blockPoint slot _ => some slot

end Point

/-- The header fields that index a block on the chain. -/
structure BlockHeader where
  hash : HeaderHash
  prevHash : HeaderHash
  slotNo : SlotNo
  blockNo : BlockNo
deriving DecidableEq, Repr

/-- A block; `Body` is everything the storage layer carries without reading it. -/
structure Block (Body : Type) where
  header : BlockHeader
  body : Body
deriving DecidableEq, Repr

def Block.point {Body : Type} (block : Block Body) : Point :=
  .blockPoint block.header.slotNo block.header.hash

/-- A nonce: the identity, or 32 bytes of entropy. -/
inductive Nonce where
  | neutral
  | hash (digest : Hash32)
deriving DecidableEq, Repr

namespace Nonce

/-- Combine two nonces by hashing the concatenation of their bytes. -/
def combine (hashBytes256 : Bytes → Hash32) : Nonce → Nonce → Nonce
  | neutral, other => other
  | self, neutral => self
  | hash a, hash b => hash (hashBytes256 (bytesOfDigest 32 a ++ bytesOfDigest 32 b))

def fromHeaderHash (header : HeaderHash) : Nonce := hash header

@[simp] theorem combine_neutral (hashBytes256 : Bytes → Hash32) (nonce : Nonce) :
    nonce.combine hashBytes256 neutral = nonce := by
  cases nonce <;> rfl

@[simp] theorem neutral_combine (hashBytes256 : Bytes → Hash32) (nonce : Nonce) :
    neutral.combine hashBytes256 nonce = nonce := rfl

end Nonce

/-- Who authorizes: the holder of a key, or a script. -/
inductive StakeCredential where
  | addrKeyHash (hash : Hash28)
  | scriptHash (hash : Hash28)
deriving DecidableEq, Repr

namespace StakeCredential

def isKeyHash : StakeCredential → Bool
  | addrKeyHash _ => true
  | scriptHash _ => false

/-- The key hash of a key credential. -/
def keyHash? : StakeCredential → Option Hash28
  | addrKeyHash hash => some hash
  | scriptHash _ => none

end StakeCredential

/-- A reward account: network and staking credential. -/
structure RewardAccount where
  network : UInt8
  credential : StakeCredential
deriving DecidableEq, Repr

/-- Who a stake holder delegates votes to. -/
inductive DRep where
  | keyHash (hash : Hash28)
  | scriptHash (hash : Hash28)
  | alwaysAbstain
  | alwaysNoConfidence
deriving DecidableEq, Repr

/-- The pot an instantaneous reward is paid from. -/
inductive MirPot where
  | reserves
  | treasury
deriving DecidableEq, Repr

end Yggdrasil.Ledger
