import Yggdrasil.Ledger.CborCollections

/-!
# Plutus data

The value type of `crates/ledger/src/plutus.rs`, its encoder and its decoder.  Both walk the value
with an explicit stack: the encoder with the nodes and stop codes still to be written, the decoder
with one frame per container that is being filled and the value that was read last.
-/

namespace Yggdrasil.Ledger

open Cbor

inductive PlutusData where
  | constr (alternative : UInt64) (fields : List PlutusData)
  | map (entries : List (PlutusData × PlutusData))
  | list (items : List PlutusData)
  | integer (value : Int)
  | bytes (value : Bytes)

namespace PlutusData

/-! ## Encoding -/

/-- The bytes of a number without leading zeros; zero takes one byte. -/
def toBytesBe (value : Nat) : Bytes :=
  if value = 0 then [0] else ((Nat.digits 256 value).map UInt8.ofNat).reverse

def boundedBytesChunkSize : Nat := 64

/-- `chunks`: pieces of at most `size` bytes. -/
def chunks (size : Nat) (data : Bytes) : List Bytes :=
  if data.length ≤ size ∨ size = 0 then [data]
  else data.take size :: chunks size (data.drop size)
termination_by data.length
decreasing_by
  rw [List.length_drop]
  omega

def encodeBoundedBytes (data : Bytes) : Bytes :=
  if data.length ≤ boundedBytesChunkSize then Cbor.bytes data
  else
    [0x5f] ++ ((chunks boundedBytesChunkSize data).map Cbor.bytes).flatten ++ [0xff]

def bigUintTag : UInt64 := 2
def bigNintTag : UInt64 := 3

/-- A plain integer where the magnitude fits 64 bits, a tagged byte string otherwise. -/
def encodeBigInt (value : Int) : Bytes :=
  if 0 ≤ value then
    let magnitude := value.toNat
    if magnitude < 2 ^ 64 then unsigned (.ofNat magnitude)
    else tag bigUintTag ++ encodeBoundedBytes (toBytesBe magnitude)
  else
    let magnitude := (-value - 1).toNat
    if magnitude < 2 ^ 64 then negative (.ofNat magnitude)
    else tag bigNintTag ++ encodeBoundedBytes (toBytesBe magnitude)

/-- An empty list has a definite length, any other an indefinite one. -/
def encodeListHeader (length : Nat) : Bytes := if length = 0 then array 0 else [0x9f]

def constrTagBase : UInt64 := 121
def constrTagExtBase : UInt64 := 1280
def constrTagExtMaxAlt : UInt64 := 127
def constrTagGeneral : UInt64 := 102

/-- The three forms of a constructor's tag. -/
def encodeConstrTag (alternative : UInt64) : Bytes :=
  if alternative ≤ 6 then tag (constrTagBase + alternative)
  else if alternative ≤ constrTagExtMaxAlt then tag (constrTagExtBase + (alternative - 7))
  else tag constrTagGeneral ++ array 2 ++ unsigned alternative

/-- An entry of the encoder's stack. -/
inductive Work where
  | data (node : PlutusData)
  | stop

/-- A list that is not empty ends with a stop code. -/
def stopAfter (length : Nat) : List Work := if length = 0 then [] else [.stop]

/-- What the encoder writes when it comes to a node. -/
def header : PlutusData → Bytes
  | .constr alternative fields => encodeConstrTag alternative ++ encodeListHeader fields.length
  | .map entries => Cbor.map entries.length
  | .list items => encodeListHeader items.length
  | .integer value => encodeBigInt value
  | .bytes value => encodeBoundedBytes value

/-- What it puts on the stack there, the top first. -/
def children : PlutusData → List Work
  | .constr _ fields => fields.map .data ++ stopAfter fields.length
  | .map entries => entries.flatMap fun entry => [.data entry.1, .data entry.2]
  | .list items => items.map .data ++ stopAfter items.length
  | .integer _ | .bytes _ => []

mutual

/-- The number of entries that a node puts on the stack, itself included. -/
def size : PlutusData → Nat
  | .constr _ fields => sizes fields + 2
  | .map entries => pairSizes entries + 1
  | .list items => sizes items + 2
  | .integer _ | .bytes _ => 1

def sizes : List PlutusData → Nat
  | [] => 0
  | item :: rest => item.size + sizes rest

def pairSizes : List (PlutusData × PlutusData) → Nat
  | [] => 0
  | (key, value) :: rest => key.size + value.size + pairSizes rest

end

def Work.effort : Work → Nat
  | .data node => node.size
  | .stop => 1

def effort (work : List Work) : Nat := (work.map Work.effort).sum

theorem effort_append (front back : List Work) :
    effort (front ++ back) = effort front + effort back := by
  simp [effort]

theorem effort_map_data (items : List PlutusData) : effort (items.map .data) = sizes items := by
  induction items with
  | nil => rfl
  | cons item rest ih =>
    rw [sizes, ← ih]
    rfl

theorem effort_pairs (entries : List (PlutusData × PlutusData)) :
    effort (entries.flatMap fun entry => [.data entry.1, .data entry.2]) = pairSizes entries := by
  induction entries with
  | nil => rfl
  | cons entry rest ih =>
    rw [List.flatMap_cons, effort_append, ih, pairSizes]
    simp [effort, Work.effort]

theorem effort_children_lt (node : PlutusData) : effort node.children < node.size := by
  have hstop : ∀ length, effort (stopAfter length) ≤ 1 := by
    intro length
    unfold stopAfter
    split
    · exact Nat.zero_le 1
    · exact le_rfl
  cases node with
  | constr alternative fields =>
    rw [children, effort_append, effort_map_data, size]
    have hlength := hstop fields.length
    omega
  | map entries =>
    rw [children, effort_pairs, size]
    omega
  | list items =>
    rw [children, effort_append, effort_map_data, size]
    have hlength := hstop items.length
    omega
  | integer value | bytes value => exact Nat.zero_lt_one

/-- The loop of `encode_cbor`. -/
def encodeLoop : List Work → Bytes → Bytes
  | [], written => written
  | .stop :: work, written => encodeLoop work (written ++ [0xff])
  | .data node :: work, written => encodeLoop (node.children ++ work) (written ++ node.header)
termination_by work => effort work
decreasing_by
  · simp [effort, Work.effort]
  · have hchildren := effort_children_lt node
    rw [effort_append]
    simp only [effort, List.map_cons, List.sum_cons, Work.effort] at hchildren ⊢
    omega

def encodeCbor (data : PlutusData) : Bytes := encodeLoop [.data data] []

/-! ## Decoding -/

def maxDecodeDepth : Nat := 256

/-- The bytes that a value takes in memory. -/
def dataSize : Nat := 40

inductive ContainerKind where
  | list
  | constr (alternative : UInt64)

/-- A container that is being filled; `none` elements remaining means up to the stop code. -/
inductive Frame where
  | seq (kind : ContainerKind) (remaining : Option UInt64) (children : List PlutusData)
  | map (remaining : Option UInt64) (entries : List (PlutusData × PlutusData))
      (pendingKey : Option PlutusData)

namespace Frame

/-- The value of a container that is complete. -/
def fold : Frame → PlutusData
  | .seq .list _ children => .list children
  | .seq (.constr alternative) _ children => .constr alternative children
  | .map _ entries _ => .map entries

/-- A container of definite length has all its elements. -/
def complete : Frame → Bool
  | .seq _ (some 0) _ => true
  | .map (some 0) _ none => true
  | _ => false

def isIndef : Frame → Bool
  | .seq _ none _ => true
  | .map none _ _ => true
  | _ => false

/-- `saturating_sub(1)`. -/
def oneLess (remaining : UInt64) : UInt64 := if remaining = 0 then 0 else remaining - 1

/-- Put a value into a container. -/
def place (value : PlutusData) : Frame → Frame
  | .seq kind remaining children => .seq kind (remaining.map oneLess) (children ++ [value])
  | .map remaining entries (some key) =>
    .map (remaining.map oneLess) (entries ++ [(key, value)]) none
  | .map remaining entries none => .map remaining entries (some value)

end Frame

/-- What a tag announces: a number in bytes, or a constructor. -/
inductive Tagged where
  | number (value : Int)
  | constr (alternative : UInt64)

def readTagged : DecodeM Tagged := do
  let number ← readTag
  if 121 ≤ number ∧ number ≤ 127 then
    return .constr (number - constrTagBase)
  else if 1280 ≤ number ∧ number ≤ 1400 then
    return .constr (number - 1280 + 7)
  else if number = constrTagGeneral then
    let outerLen ← readArray
    if outerLen ≠ 2 then
      .fail (.cborInvalidLength 2 outerLen.toNat)
    else
      return .constr (← readUnsigned)
  else if number = bigUintTag then
    return .number (natOfBytesBe (← readBytesOwned))
  else if number = bigNintTag then
    return .number (-1 - natOfBytesBe (← readBytesOwned))
  else
    .fail (.cborTypeMismatch 121 number.toUInt8)

/-- Enter a sequence; an empty one of definite length is a value at once. -/
def beginSeq (kind : ContainerKind) (stack : List Frame) :
    DecodeM (List Frame × Option PlutusData) := do
  let len ← arrayBegin
  match len with
  | some 0 => return (stack, some (Frame.seq kind len []).fold)
  | some count =>
    reserve count dataSize
    return (.seq kind len [] :: stack, none)
  | none => return (.seq kind len [] :: stack, none)

def beginMap (stack : List Frame) : DecodeM (List Frame × Option PlutusData) := do
  let len ← mapBegin
  match len with
  | some 0 => return (stack, some (.map []))
  | some count =>
    reserve count (2 * dataSize)
    return (.map len [] none :: stack, none)
  | none => return (.map len [] none :: stack, none)

/-- Fail where another container would nest too deep. -/
def checkDepth (maxDepth : Nat) (stack : List Frame) : DecodeM Unit :=
  if stack.length ≥ maxDepth then .fail (.cborNestingTooDeep maxDecodeDepth) else return ()

/-- Read the next item: an atom is a value, a container header a new frame. -/
def decodeNext (maxDepth : Nat) (stack : List Frame) :
    DecodeM (List Frame × Option PlutusData) := do
  let major ← peekMajor
  if major = 0 then
    return (stack, some (.integer (← readUnsigned).toNat))
  else if major = 1 then
    return (stack, some (.integer (-1 - (← readNegative).toNat)))
  else if major = 2 then
    return (stack, some (.bytes (← readBytesOwned)))
  else if major = 4 then
    checkDepth maxDepth stack
    beginSeq .list stack
  else if major = 5 then
    checkDepth maxDepth stack
    beginMap stack
  else if major = 6 then
    match (← readTagged) with
    | .number value => return (stack, some (.integer value))
    | .constr alternative =>
      checkDepth maxDepth stack
      beginSeq (.constr alternative) stack
  else
    .fail (.cborTypeMismatch 0 major)

/-- The loop of `decode_with_depth`.  A round places a value or reads a byte, so twice the number of
unread bytes bounds the rounds. -/
def decodeLoop (maxDepth : Nat) : Nat → List Frame → Option PlutusData → DecodeM PlutusData
  | 0, _, _ => throw .panicked
  | _ + 1, [], some value => return value
  | rounds + 1, top :: below, some value =>
    let placed := top.place value
    if placed.complete then decodeLoop maxDepth rounds below (some placed.fold)
    else decodeLoop maxDepth rounds (placed :: below) none
  | rounds + 1, [], none => do
    let (stack, value) ← decodeNext maxDepth []
    decodeLoop maxDepth rounds stack value
  | rounds + 1, top :: below, none => do
    if top.isIndef && (← isBreak) then
      consumeBreak
      decodeLoop maxDepth rounds below (some top.fold)
    else
      let (stack, value) ← decodeNext maxDepth (top :: below)
      decodeLoop maxDepth rounds stack value

def decodeWithDepth (maxDepth : Nat) : DecodeM PlutusData := do
  decodeLoop maxDepth (2 * (← get).remaining + 2) [] none

def decodeCbor : DecodeM PlutusData := decodeWithDepth maxDecodeDepth

end PlutusData
end Yggdrasil.Ledger
