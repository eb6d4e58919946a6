import Yggdrasil.Ledger.Error

/-!
# CBOR

The writer of `crates/ledger/src/cbor.rs`, as far as outputs and addresses need it, and the
operations of the reader.  A decoder keeps its position also when an operation fails, because callers of `.ok()`
read on from there.  Indices are 64-bit words that wrap.
-/

namespace Yggdrasil.Ledger.Cbor

def majorUnsigned : UInt8 := 0
def majorNegative : UInt8 := 1
def majorBytes : UInt8 := 2
def majorText : UInt8 := 3
def majorArray : UInt8 := 4
def majorMap : UInt8 := 5
def majorTag : UInt8 := 6
def majorSimple : UInt8 := 7

/-- Additional information 31: an item of indefinite length. -/
def aiIndef : UInt8 := 31

/-- The "break" stop code. -/
def breakByte : UInt8 := 0xff

/-! ## Writing -/

/-- The initial byte and the argument of an item, in the shortest form. -/
def writeTypeAndArg (major : UInt8) (value : UInt64) : Bytes :=
  let mt := major <<< 5
  if value < 24 then [mt ||| value.toUInt8]
  else if value ≤ 0xff then [mt ||| 24, value.toUInt8]
  else if value ≤ 0xffff then (mt ||| 25) :: bytesOfDigest 2 (BitVec.ofNat 16 value.toNat)
  else if value ≤ 0xffffffff then (mt ||| 26) :: bytesOfDigest 4 (BitVec.ofNat 32 value.toNat)
  else (mt ||| 27) :: bytesOfDigest 8 (BitVec.ofNat 64 value.toNat)

def unsigned (value : UInt64) : Bytes := writeTypeAndArg majorUnsigned value

def bytes (data : Bytes) : Bytes := writeTypeAndArg majorBytes (.ofNat data.length) ++ data

def array (length : Nat) : Bytes := writeTypeAndArg majorArray (.ofNat length)

def map (length : Nat) : Bytes := writeTypeAndArg majorMap (.ofNat length)

def tag (number : UInt64) : Bytes := writeTypeAndArg majorTag number

/-! ## Reading -/

/-- A byte slice with a read position. -/
structure Decoder where
  data : Bytes
  pos : Nat
deriving DecidableEq, Repr

namespace Decoder

def new (data : Bytes) : Decoder := ⟨data, 0⟩

def remaining (decoder : Decoder) : Nat := decoder.data.length - decoder.pos

end Decoder

/-- Decoder operations: they move the position and may fail. -/
abbrev DecodeM := ExceptT Failure (StateM Decoder)

namespace DecodeM

/-- Stop with an error. -/
def fail {α : Type} (reason : LedgerError) : DecodeM α := throw (.error reason)

/-- The outcome of an operation on a decoder. -/
def outcome {α : Type} (operation : DecodeM α) (decoder : Decoder) : Result α :=
  (operation.run.run decoder).1

end DecodeM

/-- `.ok()` on an operation: the position reached stays. -/
def attempt {α : Type} (operation : DecodeM α) : DecodeM (Option α) := fun decoder =>
  let (result, after) := operation.run.run decoder
  (Result.toOption result, after)

def position : DecodeM Nat := do return (← get).pos

def peekByte : DecodeM UInt8 := do
  let decoder ← get
  match decoder.data[decoder.pos]? with
  | some byte => return byte
  | none => .fail .cborUnexpectedEof

/-- Move past one byte. -/
def advance : DecodeM Unit := modify fun decoder => { decoder with pos := decoder.pos + 1 }

def readByte : DecodeM UInt8 := do
  let byte ← peekByte
  advance
  return byte

/-- Read `len` bytes.  The bound is computed in machine words: a sum that wraps below the
position passes the length test and makes the slice expression panic. -/
def readExact (len : UInt64) : DecodeM Bytes := do
  let decoder ← get
  let stop := (decoder.pos + len.toNat) % 2 ^ 64
  if decoder.data.length < stop then
    .fail .cborUnexpectedEof
  else if stop < decoder.pos then
    throw .panicked
  else
    set { decoder with pos := stop }
    return (decoder.data.drop decoder.pos).take len.toNat

/-- Read the argument an initial byte announces. -/
def readArgument (initial : UInt8) : DecodeM UInt64 := do
  let ai := initial &&& 0x1f
  if ai < 24 then
    return ai.toUInt64
  else if ai = 24 then
    return (← readByte).toUInt64
  else if ai = 25 then
    return .ofNat (natOfBytesBe (← readExact 2))
  else if ai = 26 then
    return .ofNat (natOfBytesBe (← readExact 4))
  else if ai = 27 then
    return .ofNat (natOfBytesBe (← readExact 8))
  else
    .fail (.cborInvalidAdditionalInfo ai)

/-- Read an initial byte of the given major type and its argument. -/
def expectMajor (expected : UInt8) : DecodeM UInt64 := do
  let initial ← readByte
  let major := initial >>> 5
  if major ≠ expected then
    .fail (.cborTypeMismatch expected major)
  else
    readArgument initial

def readUnsigned : DecodeM UInt64 := expectMajor majorUnsigned

/-- The argument of a negative integer. -/
def readNegative : DecodeM UInt64 := expectMajor majorNegative

def peekMajor : DecodeM UInt8 := do return (← peekByte) >>> 5

/-- A signed integer that fits `i64`. -/
def readInteger : DecodeM Int64 := do
  let major ← peekMajor
  if major = majorUnsigned then
    let value ← readUnsigned
    if value.toNat < 2 ^ 63 then return .ofNat value.toNat
    else .fail (.cborTypeMismatch majorUnsigned majorUnsigned)
  else if major = majorNegative then
    let value ← readNegative
    if value.toNat < 2 ^ 63 then return -1 - .ofNat value.toNat
    else .fail (.cborTypeMismatch majorNegative majorNegative)
  else
    .fail (.cborTypeMismatch majorUnsigned major)

def readArray : DecodeM UInt64 := expectMajor majorArray

def readMap : DecodeM UInt64 := expectMajor majorMap

def readTag : DecodeM UInt64 := expectMajor majorTag

def readBytes : DecodeM Bytes := do
  readExact (← expectMajor majorBytes)

def readText : DecodeM String := do
  let raw ← readExact (← expectMajor majorText)
  match String.fromUTF8? ⟨raw.toArray⟩ with
  | some text => return text
  | none => .fail (.cborTypeMismatch majorText majorBytes)

/-- The chunks of a byte string up to the stop code; `rounds` bounds their number. -/
def appendChunks : Nat → Bytes → DecodeM Bytes
  | 0, _ => throw .panicked
  | rounds + 1, assembled => do
    if (← peekByte) = breakByte then
      advance
      return assembled
    else
      let chunk ← readBytes
      appendChunks rounds (assembled ++ chunk)

/-- A byte string of definite or indefinite length. -/
def readBytesOwned : DecodeM Bytes := do
  let initial ← peekByte
  let major := initial >>> 5
  if major ≠ majorBytes then
    .fail (.cborTypeMismatch majorBytes major)
  else if initial &&& 0x1f = aiIndef then
    advance
    appendChunks ((← get).remaining + 1) []
  else
    readBytes

/-- `for _ in 0..count`. -/
def repeatTimes (item : DecodeM Unit) : Nat → DecodeM Unit
  | 0 => return ()
  | count + 1 => do
    item
    repeatTimes item count

/-- Read items up to the stop code.  Every item takes a byte, so one more than the number of
unread bytes bounds the rounds. -/
def untilBreak (item : DecodeM Unit) : Nat → DecodeM Unit
  | 0 => throw .panicked
  | rounds + 1 => do
    if (← peekByte) = breakByte then
      advance
    else
      item
      untilBreak item rounds

/-- The contents of an array, a map or a chunked string after its initial byte. -/
def skipContents (initial : UInt8) (item : DecodeM Unit) : DecodeM Unit := do
  if initial &&& 0x1f = aiIndef then
    untilBreak item ((← get).remaining + 1)
  else
    repeatTimes item (← readArgument initial).toNat

/-- Skip one item with nesting bounded by `depth`. -/
def skipNested : Nat → DecodeM Unit
  | 0 => throw .panicked
  | depth + 1 => do
    let initial ← readByte
    let major := initial >>> 5
    let ai := initial &&& 0x1f
    if major = majorUnsigned ∨ major = majorNegative then
      let _ ← readArgument initial
    else if major = majorBytes ∨ major = majorText then
      if ai = aiIndef then
        skipContents initial (skipNested depth)
      else
        let _ ← readExact (← readArgument initial)
    else if major = majorArray then
      skipContents initial (skipNested depth)
    else if major = majorMap then
      skipContents initial (do skipNested depth; skipNested depth)
    else if major = majorSimple then
      if ai < 24 then
        return ()
      else if ai = 24 then
        let _ ← readByte
      else if ai = 25 then
        let _ ← readExact 2
      else if ai = 26 then
        let _ ← readExact 4
      else if ai = 27 then
        let _ ← readExact 8
      else
        DecodeM.fail (.cborInvalidAdditionalInfo ai)
    else
      let _ ← readArgument initial
      skipNested depth

/-- Skip one complete item.  Nesting takes a byte per level. -/
def skip : DecodeM Unit := do
  skipNested ((← get).remaining + 1)

def slice (start stop : Nat) : DecodeM Bytes := do
  let decoder ← get
  if decoder.data.length < stop ∨ stop < start then
    .fail .cborUnexpectedEof
  else
    return (decoder.data.drop start).take (stop - start)

def rawValue : DecodeM Bytes := do
  let start ← position
  skip
  slice start (← position)

end Yggdrasil.Ledger.Cbor
