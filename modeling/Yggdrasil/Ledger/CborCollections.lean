import Yggdrasil.Ledger.Cbor

/-!
# CBOR collections

The operations of `crates/ledger/src/cbor.rs` for negative integers and collections of indefinite
length, and the reservation of memory for a declared number of elements.
-/

namespace Yggdrasil.Ledger.Cbor

/-! ## Writing -/

def negative (value : UInt64) : Bytes := writeTypeAndArg majorNegative value

/-! ## Reading -/

/-- The next byte is the stop code. -/
def isBreak : DecodeM Bool := do
  let decoder ← get
  return decoder.data[decoder.pos]? = some breakByte

def consumeBreak : DecodeM Unit := do
  let byte ← readByte
  if byte = breakByte then return ()
  else .fail (.cborTypeMismatch majorSimple (byte >>> 5))

/-- The length of a collection, or `none` for one of indefinite length. -/
def collectionBegin (expected : UInt8) : DecodeM (Option UInt64) := do
  let initial ← peekByte
  let major := initial >>> 5
  if major ≠ expected then
    .fail (.cborTypeMismatch expected major)
  else if initial &&& 0x1f = aiIndef then
    advance
    return none
  else
    return some (← expectMajor expected)

def arrayBegin : DecodeM (Option UInt64) := collectionBegin majorArray

def mapBegin : DecodeM (Option UInt64) := collectionBegin majorMap

/-- `Vec::reserve` on an empty vector: it panics when the elements would take more than
`isize::MAX` bytes. -/
def reserve (count : UInt64) (elementSize : Nat) : DecodeM Unit :=
  if 2 ^ 63 ≤ count.toNat * elementSize then throw .panicked else return ()

end Yggdrasil.Ledger.Cbor
