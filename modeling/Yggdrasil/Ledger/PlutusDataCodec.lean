import Yggdrasil.Ledger.CborReads
import Yggdrasil.Ledger.PlutusData

/-!
# Plutus data survives the wire

Encoder and decoder are two loops with a stack each.  The encoder is first shown to write the
encoding that the recursion over the value gives.  The decoder then advances over that encoding:
`Advances` says that the loop goes from one pair of stack and pending value to another over given
bytes, and pays for every round out of the bytes, the frames and the pending value.  The rounds that
`decode_with_depth` is given are therefore always enough.
-/

namespace Yggdrasil.Ledger.PlutusData

open Cbor

/-! ## The encoding of a value -/

/-- The stop code after a sequence that is not empty. -/
def closing (length : Nat) : Bytes := if length = 0 then [] else [0xff]

mutual

/-- What `encode_cbor` writes, by recursion over the value. -/
def encoding : PlutusData → Bytes
  | .constr alternative fields =>
    encodeConstrTag alternative ++ encodeListHeader fields.length ++
      (encodings fields ++ closing fields.length)
  | .map entries => Cbor.map entries.length ++ pairEncodings entries
  | .list items => encodeListHeader items.length ++ (encodings items ++ closing items.length)
  | .integer value => encodeBigInt value
  | .bytes value => encodeBoundedBytes value

def encodings : List PlutusData → Bytes
  | [] => []
  | item :: rest => item.encoding ++ encodings rest

def pairEncodings : List (PlutusData × PlutusData) → Bytes
  | [] => []
  | (key, value) :: rest => key.encoding ++ (value.encoding ++ pairEncodings rest)

end

/-- What an entry of the encoder's stack still writes. -/
def Work.encoding : Work → Bytes
  | .data node => node.encoding
  | .stop => [0xff]

def workEncoding (work : List Work) : Bytes := (work.map Work.encoding).flatten

theorem workEncoding_append (front back : List Work) :
    workEncoding (front ++ back) = workEncoding front ++ workEncoding back := by
  simp [workEncoding]

theorem workEncoding_data (items : List PlutusData) :
    workEncoding (items.map .data) = encodings items := by
  induction items with
  | nil => rfl
  | cons item rest ih =>
    rw [encodings, ← ih]
    rfl

theorem workEncoding_pairs (entries : List (PlutusData × PlutusData)) :
    workEncoding (entries.flatMap fun entry => [.data entry.1, .data entry.2]) =
      pairEncodings entries := by
  induction entries with
  | nil => rfl
  | cons entry rest ih =>
    rw [List.flatMap_cons, workEncoding_append, ih, pairEncodings]
    simp [workEncoding, Work.encoding]

variable (length : Nat)

theorem workEncoding_stopAfter :
    workEncoding (stopAfter length) = closing length := by
  unfold stopAfter closing
  split <;> rfl

/-- A node is written as its header and then what it puts on the stack. -/
theorem encoding_eq_header (node : PlutusData) :
    node.encoding = node.header ++ workEncoding node.children := by
  cases node with
  | constr alternative fields =>
    rw [encoding, header, children, workEncoding_append, workEncoding_data,
      workEncoding_stopAfter]
  | map entries => rw [encoding, header, children, workEncoding_pairs]
  | list items =>
    rw [encoding, header, children, workEncoding_append, workEncoding_data,
      workEncoding_stopAfter]
  | integer value => rw [encoding, header, children, workEncoding, List.map_nil, List.flatten_nil,
      List.append_nil]
  | bytes value => rw [encoding, header, children, workEncoding, List.map_nil, List.flatten_nil,
      List.append_nil]

theorem encodeLoop_eq (work : List Work) (written : Bytes) :
    encodeLoop work written = written ++ workEncoding work := by
  fun_induction encodeLoop work written with
  | case1 written => simp [workEncoding]
  | case2 work written ih =>
    rw [ih, List.append_assoc]
    rfl
  | case3 node work written ih =>
    rw [ih, workEncoding_append, List.append_assoc, ← List.append_assoc node.header,
      ← encoding_eq_header]
    rfl

theorem encodeCbor_eq_encoding (data : PlutusData) : data.encodeCbor = data.encoding := by
  rw [encodeCbor, encodeLoop_eq]
  simp [workEncoding, Work.encoding]

/-! ## Atoms -/

theorem flatten_chunks (size : Nat) (data : Bytes) : (chunks size data).flatten = data := by
  fun_induction chunks size data with
  | case1 data hshort => simp
  | case2 data hlong ih => rw [List.flatten_cons, ih, List.take_append_drop]

theorem length_of_mem_chunks {size : Nat} (hsize : size ≠ 0) (data : Bytes) :
    ∀ part ∈ chunks size data, part.length ≤ size := by
  fun_induction chunks size data with
  | case1 data hshort =>
    intro part hpart
    rw [List.mem_singleton.mp hpart]
    exact hshort.resolve_right hsize
  | case2 data hlong ih =>
    intro part hpart
    rcases List.mem_cons.mp hpart with rfl | hlater
    · exact List.length_take_le size data
    · exact ih part hlater

variable (data : Bytes)

theorem reads_encodeBoundedBytes :
    Reads readBytesOwned (encodeBoundedBytes data) data := by
  unfold encodeBoundedBytes
  by_cases hshort : data.length ≤ boundedBytesChunkSize
  · rw [if_pos hshort]
    exact reads_readBytesOwned_definite data (lt_of_le_of_lt hshort (by decide))
  · rw [if_neg hshort]
    have hchunked := reads_readBytesOwned_chunked (chunks boundedBytesChunkSize data)
      fun part hpart => lt_of_le_of_lt (length_of_mem_chunks (by decide) data part hpart) (by decide)
    rwa [flatten_chunks] at hchunked

theorem natOfBytesBe_eq_ofDigits (bytes : Bytes) :
    natOfBytesBe bytes = Nat.ofDigits 256 (bytes.reverse.map UInt8.toNat) := by
  induction bytes using List.reverseRecOn with
  | nil => rfl
  | append_singleton front last ih =>
    have hlast : natOfBytesBe (front ++ [last]) = natOfBytesBe front * 256 + last.toNat := by
      simp [natOfBytesBe]
    rw [hlast, ih, List.reverse_append, List.reverse_singleton, List.singleton_append,
      List.map_cons, Nat.ofDigits_cons]
    ring

theorem natOfBytesBe_toBytesBe (value : Nat) : natOfBytesBe (toBytesBe value) = value := by
  unfold toBytesBe
  by_cases hzero : value = 0
  · rw [hzero]
    rfl
  · have hdigits : ((Nat.digits 256 value).map UInt8.ofNat).map UInt8.toNat =
        Nat.digits 256 value := by
      rw [List.map_map]
      refine (List.map_congr_left fun digit hdigit => ?_).trans (List.map_id _)
      have hsmall := Nat.digits_lt_base (by decide) hdigit
      exact Nat.mod_eq_of_lt hsmall
    rw [if_neg hzero, natOfBytesBe_eq_ofDigits, List.reverse_reverse, hdigits, Nat.ofDigits_digits]

/-! ## Headers

One lemma for each kind of node: what the decoder has after the header, a value or a new frame. -/

variable {maxDepth : Nat} {stack : List Frame}

theorem reads_decodeNext_unsigned (value : UInt64) :
    Reads (decodeNext maxDepth stack) (unsigned value) (stack, some (.integer value.toNat)) := by
  refine (starts_head (by decide) value).reads_peekMajor ?_
  rw [if_pos (by decide)]
  exact (reads_readUnsigned value).map fun read => (stack, some _)

theorem reads_decodeNext_negative (value : UInt64) :
    Reads (decodeNext maxDepth stack) (negative value)
      (stack, some (.integer (-1 - value.toNat))) := by
  refine (starts_head (by decide) value).reads_peekMajor ?_
  rw [if_neg (by decide)]
  exact (reads_readNegative value).map fun read => (stack, some _)

theorem starts_encodeBoundedBytes : Starts majorBytes (encodeBoundedBytes data) := by
  unfold encodeBoundedBytes
  split
  · exact (starts_head (by decide) _).append data
  · exact ⟨0x5f, _, rfl, by decide⟩

theorem reads_decodeNext_bytes :
    Reads (decodeNext maxDepth stack) (encodeBoundedBytes data) (stack, some (.bytes data)) := by
  refine (starts_encodeBoundedBytes data).reads_peekMajor ?_
  rw [if_neg (by decide)]
  exact (reads_encodeBoundedBytes data).map fun read => (stack, some (bytes read))

/-- What a tag announces is read by `readTagged`; a number is then the value. -/
theorem reads_decodeNext_tagged_number {number : UInt64} {tail : Bytes} {value : Int}
    (htagged : Reads readTagged (tag number ++ tail) (.number value)) :
    Reads (decodeNext maxDepth stack) (tag number ++ tail) (stack, some (.integer value)) := by
  refine ((starts_head (by decide) number).append tail).reads_peekMajor ?_
  rw [if_neg (by decide), if_neg (by decide), if_neg (by decide)]
  exact htagged.bind_nil (reads_pure _)

theorem reads_decodeNext_integer (value : Int) :
    Reads (decodeNext maxDepth stack) (encodeBigInt value) (stack, some (.integer value)) := by
  have hword : ∀ {magnitude : Nat}, magnitude < 2 ^ 64 →
      (UInt64.ofNat magnitude).toNat = magnitude := by
    intro magnitude hsmall
    rw [UInt64.toNat_ofNat']
    exact Nat.mod_eq_of_lt hsmall
  unfold encodeBigInt
  by_cases hsign : 0 ≤ value
  · rw [if_pos hsign]
    by_cases hsmall : value.toNat < 2 ^ 64
    · have hread := @reads_decodeNext_unsigned maxDepth stack (.ofNat value.toNat)
      rw [hword hsmall, Int.toNat_of_nonneg hsign] at hread
      rwa [if_pos hsmall]
    · have hnumber := (reads_encodeBoundedBytes (toBytesBe value.toNat)).map fun raw =>
        Tagged.number (natOfBytesBe raw)
      rw [natOfBytesBe_toBytesBe, Int.toNat_of_nonneg hsign] at hnumber
      rw [if_neg hsmall]
      exact reads_decodeNext_tagged_number ((reads_readTag _).bind hnumber)
  · have hmagnitude : ((-value - 1).toNat : Int) = -value - 1 := Int.toNat_of_nonneg (by omega)
    have hback : -1 - (-value - 1) = value := by omega
    rw [if_neg hsign]
    by_cases hsmall : (-value - 1).toNat < 2 ^ 64
    · have hread := @reads_decodeNext_negative maxDepth stack (.ofNat (-value - 1).toNat)
      rw [hword hsmall, hmagnitude, hback] at hread
      rwa [if_pos hsmall]
    · have hnumber := (reads_encodeBoundedBytes (toBytesBe (-value - 1).toNat)).map fun raw =>
        Tagged.number (-1 - natOfBytesBe raw)
      rw [natOfBytesBe_toBytesBe, hmagnitude, hback] at hnumber
      rw [if_neg hsmall]
      exact reads_decodeNext_tagged_number ((reads_readTag _).bind hnumber)

/-- The state of the decoder after the header of a sequence. -/
def entered (kind : ContainerKind) (length : Nat) (stack : List Frame) :
    List Frame × Option PlutusData :=
  if length = 0 then (stack, some (Frame.seq kind none []).fold)
  else (.seq kind none [] :: stack, none)

theorem reads_beginSeq (kind : ContainerKind) (length : Nat) :
    Reads (beginSeq kind stack) (encodeListHeader length) (entered kind length stack) := by
  unfold encodeListHeader entered
  split
  · have hread : Reads (beginSeq kind stack) (array 0)
        (stack, some (Frame.seq kind (some 0) []).fold) :=
      (reads_collectionBegin (by decide) 0).bind_nil (reads_pure _)
    cases kind <;> exact hread
  · have hbegin : Reads arrayBegin [0x9f] none := reads_collectionBegin_indef (by decide) (by decide)
    exact hbegin.bind_nil (reads_pure _)

theorem reads_checkDepth (hdepth : stack.length < maxDepth) :
    Reads (checkDepth maxDepth stack) [] () := by
  unfold checkDepth
  rw [if_neg (by omega)]
  exact reads_pure ()

theorem starts_encodeListHeader : Starts majorArray (encodeListHeader length) := by
  unfold encodeListHeader
  split
  · exact starts_head (by decide) 0
  · exact ⟨0x9f, [], rfl, by decide⟩

theorem reads_decodeNext_list (hdepth : stack.length < maxDepth) :
    Reads (decodeNext maxDepth stack) (encodeListHeader length) (entered .list length stack) := by
  refine (starts_encodeListHeader length).reads_peekMajor ?_
  rw [if_neg (by decide)]
  exact (reads_checkDepth hdepth).bind (reads_beginSeq .list length)

theorem reads_decodeNext_map (hdepth : stack.length < maxDepth)
    (hsize : length * (2 * dataSize) < 2 ^ 63) :
    Reads (decodeNext maxDepth stack) (Cbor.map length)
      (if length = 0 then (stack, some (.map []))
        else (.map (some (.ofNat length)) [] none :: stack, none)) := by
  have hlength : (UInt64.ofNat length).toNat = length := by
    rw [UInt64.toNat_ofNat']
    refine Nat.mod_eq_of_lt ?_
    unfold dataSize at hsize
    omega
  refine (starts_head (by decide) _).reads_peekMajor ?_
  rw [if_neg (by decide), if_neg (by decide), if_neg (by decide)]
  refine (reads_checkDepth hdepth).bind
    ((reads_collectionBegin (by decide) _).bind_nil ?_)
  by_cases hempty : length = 0
  · rw [if_pos hempty, hempty]
    exact reads_pure _
  · have hcount : UInt64.ofNat length ≠ 0 := by
      intro hzero
      rw [hzero] at hlength
      exact hempty hlength.symm
    rw [if_neg hempty]
    split
    · next heq => exact absurd (Option.some.inj heq) hcount
    · next count hcount heq =>
        obtain rfl := Option.some.inj heq
        have hreserve : Reads (reserve (.ofNat length) (2 * dataSize)) [] () := by
          unfold reserve
          rw [hlength, if_neg (by omega)]
          exact reads_pure ()
        exact hreserve.bind (reads_pure _)
    · next heq => exact absurd heq (by simp)

variable (alternative : UInt64)

/-- The three forms of a constructor's tag give the alternative back. -/
theorem reads_readTagged_constr :
    Reads readTagged (encodeConstrTag alternative) (.constr alternative) := by
  have hnat : ∀ {left right : UInt64}, left ≤ right ↔ left.toNat ≤ right.toNat :=
    UInt64.le_iff_toNat_le
  unfold encodeConstrTag
  by_cases hcompact : alternative ≤ 6
  · have hvalue : alternative.toNat ≤ 6 := hnat.mp hcompact
    have htag : (constrTagBase + alternative).toNat = 121 + alternative.toNat := by
      rw [UInt64.toNat_add, Nat.mod_eq_of_lt (by change 121 + _ < _; omega)]
      rfl
    have hback : constrTagBase + alternative - constrTagBase = alternative := by
      rw [UInt64.add_comm, UInt64.add_sub_cancel]
    rw [if_pos hcompact]
    refine (reads_readTag _).bind_nil ?_
    rw [if_pos ⟨hnat.mpr (by rw [htag]; change 121 ≤ _; omega),
      hnat.mpr (by rw [htag]; change _ ≤ 127; omega)⟩, hback]
    exact reads_pure _
  rw [if_neg hcompact]
  have hlarge : 6 < alternative.toNat := by
    by_contra hsmall
    exact hcompact (hnat.mpr (not_lt.mp hsmall))
  by_cases hextended : alternative ≤ constrTagExtMaxAlt
  · have hvalue : alternative.toNat ≤ 127 := hnat.mp hextended
    have hless : (alternative - 7).toNat = alternative.toNat - 7 :=
      UInt64.toNat_sub_of_le _ _ (hnat.mpr (by change 7 ≤ _; omega))
    have htag : (constrTagExtBase + (alternative - 7)).toNat = 1273 + alternative.toNat := by
      rw [UInt64.toNat_add, hless, Nat.mod_eq_of_lt (by change 1280 + _ < _; omega)]
      change 1280 + _ = _
      omega
    have hback : constrTagExtBase + (alternative - 7) - 1280 + 7 = alternative := by
      rw [UInt64.add_comm constrTagExtBase]
      change alternative - 7 + 1280 - 1280 + 7 = alternative
      rw [UInt64.add_sub_cancel, UInt64.sub_add_cancel]
    rw [if_pos hextended]
    refine (reads_readTag _).bind_nil ?_
    rw [if_neg (fun hrange => absurd (hnat.mp hrange.2) (by rw [htag]; change ¬_ ≤ 127; omega)),
      if_pos ⟨hnat.mpr (by rw [htag]; change 1280 ≤ _; omega),
        hnat.mpr (by rw [htag]; change _ ≤ 1400; omega)⟩, hback]
    exact reads_pure _
  · rw [if_neg hextended, List.append_assoc]
    refine (reads_readTag _).bind ?_
    rw [if_neg (by decide), if_neg (by decide), if_pos rfl]
    refine (reads_readArray 2).bind ?_
    rw [if_neg (by decide)]
    exact (reads_readUnsigned _).map _

theorem starts_encodeConstrTag :
    Starts majorTag (encodeConstrTag alternative) := by
  unfold encodeConstrTag
  split_ifs
  · exact starts_head (by decide) _
  · exact starts_head (by decide) _
  · exact ((starts_head (by decide) _).append _).append _

theorem reads_decodeNext_constr (length : Nat) (hdepth : stack.length < maxDepth) :
    Reads (decodeNext maxDepth stack) (encodeConstrTag alternative ++ encodeListHeader length)
      (entered (.constr alternative) length stack) := by
  refine ((starts_encodeConstrTag _).append _).reads_peekMajor ?_
  rw [if_neg (by decide), if_neg (by decide), if_neg (by decide), if_neg (by decide),
    if_neg (by decide), if_pos (by decide)]
  exact (reads_readTagged_constr _).bind
    ((reads_checkDepth hdepth).bind (reads_beginSeq _ length))

/-! ## The loop -/

/-- What a state of the loop still owes in rounds: one for each frame, one for the pending value. -/
def owed (state : List Frame × Option PlutusData) : Nat :=
  state.1.length + if state.2.isSome then 1 else 0

/-- Over `bytes`, the loop goes from one state to another; two rounds for each byte and those owed
pay for it. -/
def Advances (maxDepth : Nat) (start : List Frame × Option PlutusData) (bytes : Bytes)
    (final : List Frame × Option PlutusData) : Prop :=
  ∃ used, used + owed final ≤ 2 * bytes.length + owed start ∧
    ∀ rounds, Continues (decodeLoop maxDepth (used + rounds) start.1 start.2) bytes
      (decodeLoop maxDepth rounds final.1 final.2)

section

variable {start middle final : List Frame × Option PlutusData} {front back : Bytes} {top : Frame}
  {value : PlutusData}

theorem Advances.refl : Advances maxDepth start [] start :=
  ⟨0, by simp, fun rounds => by rw [zero_add]; exact Continues.refl _⟩

theorem Advances.trans (hfirst : Advances maxDepth start front middle)
    (hthen : Advances maxDepth middle back final) :
    Advances maxDepth start (front ++ back) final := by
  obtain ⟨used, hused, hfirst⟩ := hfirst
  obtain ⟨usedThen, husedThen, hthen⟩ := hthen
  refine ⟨used + usedThen, ?_, fun rounds => ?_⟩
  · rw [List.length_append]
    omega
  · rw [add_assoc]
    exact (hfirst _).trans (hthen rounds)

theorem advances_place (hopen : (top.place value).complete = false) :
    Advances maxDepth (top :: stack, some value) [] (top.place value :: stack, none) := by
  refine ⟨1, by simp [owed]; omega, fun rounds => Continues.of_eq ?_⟩
  rw [add_comm, decodeLoop]
  simp [hopen]

/-- The last value of a frame of definite length makes the frame a value. -/
theorem advances_fold (hcomplete : (top.place value).complete = true) :
    Advances maxDepth (top :: stack, some value) [] (stack, some (top.place value).fold) := by
  refine ⟨1, by simp [owed]; omega, fun rounds => Continues.of_eq ?_⟩
  rw [add_comm, decodeLoop]
  simp [hcomplete]

/-- The stop code makes a frame of indefinite length a value. -/
theorem advances_break (hindef : top.isIndef = true) :
    Advances maxDepth (top :: stack, none) [0xff] (stack, some top.fold) := by
  refine ⟨1, by simp [owed], fun rounds decoder rest hbounds hat => ?_⟩
  have hbreak : exec isBreak decoder = (.ok true, decoder) := by
    change (Except.ok (decide (decoder.data[decoder.pos]? = some breakByte)), decoder) = _
    rw [byte_at hat]
    rfl
  have hconsume : Reads consumeBreak [0xff] () := (reads_readByte 0xff).bind (reads_pure ())
  rw [add_comm, decodeLoop, exec_bind, hbreak]
  simp only [hindef]
  exact hconsume.continues decoder rest hbounds hat

/-- An item is there to be read, and it does not start with the stop code. -/
theorem decodeNext_ok_head {decoder after : Decoder} {read : List Frame × Option PlutusData}
    (hread : exec (decodeNext maxDepth stack) decoder = (.ok read, after)) :
    ∃ initial, decoder.data[decoder.pos]? = some initial ∧ initial ≠ breakByte := by
  unfold decodeNext peekMajor at hread
  rw [exec_bind, exec_bind, exec_peekByte] at hread
  cases hhead : decoder.data[decoder.pos]? with
  | none =>
    rw [hhead] at hread
    exact absurd (congrArg Prod.fst hread) (by simp)
  | some initial =>
    refine ⟨initial, rfl, ?_⟩
    rintro rfl
    rw [hhead] at hread
    change exec (if breakByte >>> 5 = 0 then _ else _) decoder = _ at hread
    rw [if_neg (by decide), if_neg (by decide), if_neg (by decide), if_neg (by decide),
      if_neg (by decide), if_neg (by decide), exec_fail] at hread
    exact absurd (congrArg Prod.fst hread) (by simp)

theorem advances_read {bytes : Bytes} {read : List Frame × Option PlutusData}
    (hread : Reads (decodeNext maxDepth stack) bytes read) (howed : owed read ≤ stack.length + 1) :
    Advances maxDepth (stack, none) bytes read := by
  have hnonempty : bytes ≠ [] := by
    rintro rfl
    obtain ⟨initial, hinitial, -⟩ := decodeNext_ok_head (hread (.new []) [] ⟨le_rfl, by decide⟩ rfl)
    exact absurd hinitial (by simp [Decoder.new])
  have hlength : 0 < bytes.length := List.length_pos_iff.mpr hnonempty
  refine ⟨1, ?_, fun rounds decoder rest hbounds hat => ?_⟩
  · simp only [owed] at howed ⊢
    omega
  obtain ⟨initial, hinitial, hbreak⟩ := decodeNext_ok_head (hread decoder rest hbounds hat)
  have hlook : exec isBreak decoder = (.ok false, decoder) := by
    change (Except.ok (decide (decoder.data[decoder.pos]? = some breakByte)), decoder) = _
    rw [hinitial, decide_eq_false (by simpa using hbreak)]
  rw [add_comm]
  cases stack with
  | nil =>
    rw [decodeLoop]
    exact hread.continues decoder rest hbounds hat
  | cons top below =>
    rw [decodeLoop, exec_bind, hlook]
    simp only [Bool.and_false, Bool.false_eq_true]
    exact hread.continues decoder rest hbounds hat

end

/-! ## Values -/

mutual

/-- The number of containers inside one another. -/
def nesting : PlutusData → Nat
  | .constr _ fields => nestings fields + 1
  | .map entries => pairNestings entries + 1
  | .list items => nestings items + 1
  | .integer _ | .bytes _ => 0

def nestings : List PlutusData → Nat
  | [] => 0
  | item :: rest => max item.nesting (nestings rest)

def pairNestings : List (PlutusData × PlutusData) → Nat
  | [] => 0
  | (key, value) :: rest => max (max key.nesting value.nesting) (pairNestings rest)

end

mutual

/-- The entries of every map lie in one vector, and a vector takes fewer than `2 ^ 63` bytes. -/
def InMemory : PlutusData → Prop
  | .constr _ fields => AllInMemory fields
  | .map entries => entries.length * (2 * dataSize) < 2 ^ 63 ∧ PairsInMemory entries
  | .list items => AllInMemory items
  | .integer _ | .bytes _ => True

def AllInMemory : List PlutusData → Prop
  | [] => True
  | item :: rest => item.InMemory ∧ AllInMemory rest

def PairsInMemory : List (PlutusData × PlutusData) → Prop
  | [] => True
  | (key, value) :: rest => (key.InMemory ∧ value.InMemory) ∧ PairsInMemory rest

end

theorem advances_sequence {kind : ContainerKind} {items : List PlutusData} {header : Bytes}
    (hheader : Reads (decodeNext maxDepth stack) header (entered kind items.length stack))
    (hitems : Advances maxDepth (.seq kind none [] :: stack, none) (encodings items)
      (.seq kind none items :: stack, none)) :
    Advances maxDepth (stack, none) (header ++ (encodings items ++ closing items.length))
      (stack, some (Frame.seq kind none items).fold) := by
  cases items with
  | nil =>
    rw [encodings, closing, List.length_nil, if_pos rfl, List.append_nil, List.append_nil]
    exact advances_read hheader (by simp [owed])
  | cons item rest =>
    rw [closing]
    rw [entered, if_neg (by simp)] at hheader
    exact (advances_read hheader (by simp [owed])).trans (hitems.trans (advances_break rfl))

theorem advances_map {entries : List (PlutusData × PlutusData)}
    (hdepth : stack.length < maxDepth) (hsize : entries.length * (2 * dataSize) < 2 ^ 63)
    (hentries : entries ≠ [] → Advances maxDepth
      (.map (some (.ofNat entries.length)) [] none :: stack, none) (pairEncodings entries)
      (stack, some (.map entries))) :
    Advances maxDepth (stack, none) (Cbor.map entries.length ++ pairEncodings entries)
      (stack, some (.map entries)) := by
  have hheader := reads_decodeNext_map entries.length hdepth hsize
  cases entries with
  | nil =>
    rw [pairEncodings]
    exact advances_read hheader (by simp [owed])
  | cons entry rest =>
    rw [if_neg (by simp)] at hheader
    exact (advances_read hheader (by simp [owed])).trans (hentries (by simp))

theorem oneLess_ofNat {length : Nat} (hlength : length + 1 < 2 ^ 64) :
    Frame.oneLess (.ofNat (length + 1)) = .ofNat length := by
  have hnonzero : UInt64.ofNat (length + 1) ≠ 0 := by
    intro hzero
    have hnat := congrArg UInt64.toNat hzero
    rw [UInt64.toNat_ofNat', Nat.mod_eq_of_lt hlength] at hnat
    exact absurd hnat (by simp)
  rw [Frame.oneLess, if_neg hnonzero, UInt64.ofNat_add]
  exact UInt64.add_sub_cancel _ _

theorem complete_map_ofNat {length : Nat} (hlength : length < 2 ^ 64)
    (entries : List (PlutusData × PlutusData)) :
    (Frame.map (some (.ofNat length)) entries none).complete = decide (length = 0) := by
  have hzero : UInt64.ofNat length = 0 ↔ length = 0 := by
    rw [← UInt64.toNat_inj, UInt64.toNat_ofNat', Nat.mod_eq_of_lt hlength]
    rfl
  by_cases hempty : length = 0
  · rw [hempty]
    rfl
  · rw [decide_eq_false hempty]
    unfold Frame.complete
    split
    · next heq => exact absurd heq nofun
    · next heq =>
        injection heq with hcount
        exact absurd (hzero.mp (Option.some.inj hcount)) hempty
    · rfl

theorem complete_map_pending (remaining : Option UInt64) (entries : List (PlutusData × PlutusData))
    (key : PlutusData) : (Frame.map remaining entries (some key)).complete = false := by
  unfold Frame.complete
  split
  · next heq => exact absurd heq nofun
  · next heq => exact absurd heq nofun
  · rfl

mutual

/-- From a stack with room for its nesting, the loop reads a value and has it pending. -/
theorem advances_encoding : ∀ (value : PlutusData) (stack : List Frame), value.InMemory →
    stack.length + value.nesting ≤ maxDepth →
    Advances maxDepth (stack, none) value.encoding (stack, some value)
  | .integer value, stack, _, _ => by
    rw [encoding]
    exact advances_read (reads_decodeNext_integer value) (by simp [owed])
  | .bytes value, stack, _, _ => by
    rw [encoding]
    exact advances_read (reads_decodeNext_bytes value) (by simp [owed])
  | .list items, stack, hmemory, hdepth => by
    rw [InMemory] at hmemory
    rw [nesting] at hdepth
    rw [encoding]
    have hitems := advances_encodings items .list [] stack hmemory (by omega)
    exact advances_sequence (reads_decodeNext_list _ (by omega)) hitems
  | .constr alternative fields, stack, hmemory, hdepth => by
    rw [InMemory] at hmemory
    rw [nesting] at hdepth
    rw [encoding]
    have hitems := advances_encodings fields (.constr alternative) [] stack hmemory (by omega)
    exact advances_sequence (reads_decodeNext_constr _ _ (by omega)) hitems
  | .map entries, stack, hmemory, hdepth => by
    rw [InMemory] at hmemory
    rw [nesting] at hdepth
    rw [encoding]
    exact advances_map (by omega) hmemory.1 fun hnonempty =>
      advances_pairEncodings entries [] stack hnonempty hmemory.1 hmemory.2 (by omega)

theorem advances_encodings : ∀ (items : List PlutusData) (kind : ContainerKind)
    (before : List PlutusData) (stack : List Frame), AllInMemory items →
    stack.length + 1 + nestings items ≤ maxDepth →
    Advances maxDepth (.seq kind none before :: stack, none) (encodings items)
      (.seq kind none (before ++ items) :: stack, none)
  | [], kind, before, stack, _, _ => by
    rw [encodings, List.append_nil]
    exact .refl
  | item :: rest, kind, before, stack, hmemory, hdepth => by
    rw [AllInMemory] at hmemory
    rw [nestings] at hdepth
    rw [encodings]
    have hitem := advances_encoding item (.seq kind none before :: stack) hmemory.1
      (by rw [List.length_cons]; omega)
    have hrest := advances_encodings rest kind (before ++ [item]) stack hmemory.2 (by omega)
    rw [List.append_assoc] at hrest
    have hplace : Advances maxDepth (.seq kind none before :: stack, some item) []
        (.seq kind none (before ++ [item]) :: stack, none) := advances_place rfl
    exact hitem.trans (hplace.trans hrest)

/-- The entries of a map go into its frame, key and value in turn; the last one completes it. -/
theorem advances_pairEncodings : ∀ (entries : List (PlutusData × PlutusData))
    (before : List (PlutusData × PlutusData)) (stack : List Frame), entries ≠ [] →
    entries.length * (2 * dataSize) < 2 ^ 63 → PairsInMemory entries →
    stack.length + 1 + pairNestings entries ≤ maxDepth →
    Advances maxDepth (.map (some (.ofNat entries.length)) before none :: stack, none)
      (pairEncodings entries) (stack, some (.map (before ++ entries)))
  | [], _, _, hnonempty, _, _, _ => absurd rfl hnonempty
  | (key, value) :: rest, before, stack, _, hsize, hmemory, hdepth => by
    rw [PairsInMemory] at hmemory
    rw [pairNestings] at hdepth
    rw [pairEncodings]
    rw [List.length_cons, dataSize] at hsize
    have hless := @oneLess_ofNat rest.length (by omega)
    have hkey := advances_encoding key
      (.map (some (.ofNat (rest.length + 1))) before none :: stack) hmemory.1.1
      (by rw [List.length_cons]; omega)
    have hvalue := advances_encoding value
      (.map (some (.ofNat (rest.length + 1))) before (some key) :: stack) hmemory.1.2
      (by rw [List.length_cons]; omega)
    have hpending : Advances maxDepth
        (.map (some (.ofNat (rest.length + 1))) before none :: stack, some key) []
        (.map (some (.ofNat (rest.length + 1))) before (some key) :: stack, none) :=
      advances_place (complete_map_pending _ _ _)
    have hplaced : (Frame.map (some (.ofNat (rest.length + 1))) before (some key)).place value =
        .map (some (.ofNat rest.length)) (before ++ [(key, value)]) none := by
      rw [Frame.place, Option.map_some, hless]
    have hcomplete := complete_map_ofNat (Nat.lt_of_succ_lt (by omega : rest.length + 1 < 2 ^ 64))
      (before ++ [(key, value)])
    refine hkey.trans (hpending.trans (hvalue.trans ?_))
    by_cases hlast : rest = []
    · have hfold := @advances_fold maxDepth stack
        (.map (some (.ofNat (rest.length + 1))) before (some key)) value
        (by rw [hlast]; rfl)
      rw [hplaced] at hfold
      subst hlast
      rw [pairEncodings]
      exact hfold
    · have hplace := @advances_place maxDepth stack
        (.map (some (.ofNat (rest.length + 1))) before (some key)) value
        (by rw [hplaced, hcomplete, decide_eq_false (by simpa using hlast)])
      rw [hplaced] at hplace
      have hrest := advances_pairEncodings rest (before ++ [(key, value)]) stack hlast
        (by rw [dataSize]; omega) hmemory.2 (by omega)
      rw [List.append_assoc, List.singleton_append] at hrest
      exact hplace.trans hrest

end

theorem reads_decodeWithDepth {value : PlutusData} (hmemory : value.InMemory)
    (hdepth : value.nesting ≤ maxDepth) :
    Reads (decodeWithDepth maxDepth) value.encodeCbor value := by
  obtain ⟨used, hused, hadvance⟩ := @advances_encoding maxDepth value [] hmemory
    (by rw [List.length_nil]; omega)
  simp only [owed, Option.isSome_none, Bool.false_eq_true, if_false] at hused
  rw [encodeCbor_eq_encoding]
  have hloop : ∀ unread, value.encoding.length ≤ unread →
      Reads (decodeLoop maxDepth (2 * unread + 2) [] none) value.encoding value := by
    intro unread hunread
    obtain ⟨spare, hspare⟩ : ∃ spare, 2 * unread + 2 = used + (spare + 1) :=
      ⟨2 * unread + 1 - used, by omega⟩
    rw [hspare]
    exact (hadvance (spare + 1)).reads
  exact reads_of_remaining hloop

/-- **Plutus data survives the wire.**  A value of nesting at most 256 is read back from what was
written, whatever follows, and exactly the bytes written are taken.  No other such value has the
same encoding. -/
theorem decodeCbor_encodeCbor (value : PlutusData) (suffix : Bytes) (hmemory : value.InMemory)
    (hdepth : value.nesting ≤ maxDecodeDepth)
    (hsize : (value.encodeCbor ++ suffix).length < 2 ^ 63) :
    exec decodeCbor (.new (value.encodeCbor ++ suffix)) =
        (.ok value, ⟨value.encodeCbor ++ suffix, value.encodeCbor.length⟩) ∧
      ∀ other : PlutusData, other.InMemory → other.nesting ≤ maxDecodeDepth →
        other.encodeCbor = value.encodeCbor → other = value := by
  have hbounds : InBounds (.new (value.encodeCbor ++ suffix)) := ⟨Nat.zero_le _, hsize⟩
  have hread := reads_decodeWithDepth hmemory hdepth _ suffix hbounds rfl
  refine ⟨by rw [decodeCbor, hread, Decoder.new, zero_add], fun other hother hnesting heq => ?_⟩
  have hreadOther := reads_decodeWithDepth hother hnesting _ suffix hbounds (by rw [heq]; rfl)
  rw [hread] at hreadOther
  exact (Except.ok.inj (congrArg Prod.fst hreadOther)).symm

theorem decodeCbor_encodeCbor_nested :
    let value : PlutusData := .constr 130 [.map [(.bytes [1], .integer (2 ^ 70))], .list []]
    exec decodeCbor (.new (value.encodeCbor ++ [0xff])) =
        (.ok value, ⟨value.encodeCbor ++ [0xff], value.encodeCbor.length⟩) := by
  refine (decodeCbor_encodeCbor _ [0xff] ?_ ?_ ?_).1
  · simp [InMemory, AllInMemory, PairsInMemory, dataSize]
  · simp [nesting, nestings, pairNestings, maxDecodeDepth]
  · rw [encodeCbor_eq_encoding]
    decide +kernel

end Yggdrasil.Ledger.PlutusData
