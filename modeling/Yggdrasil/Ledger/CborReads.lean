import Yggdrasil.Ledger.CborCollections
import Yggdrasil.Ledger.CborSafety

/-!
# Reading back what was written

`Reads operation bytes value` says that a decoder operation, started where `bytes` lie, returns
`value` and stops right after them, whatever follows.  The rules follow the structure of operations:
sequencing appends the byte strings, looking at the next byte takes none.  The lemmas about heads
connect the writer and the reader of `cbor.rs`.
-/

namespace Yggdrasil.Ledger.Cbor

/-! ## Big-endian numbers -/

/-- The first `length` of `count` bytes denote the leading digits. -/
theorem natOfBytesBe_take_bytesOfDigest {count : Nat} (digest : BitVec (8 * count)) {length : Nat}
    (hlength : length ≤ count) :
    natOfBytesBe ((List.range length).map fun index =>
      UInt8.ofBitVec (digest.extractLsb' (8 * (count - 1 - index)) 8)) =
      digest.toNat / 2 ^ (8 * (count - length)) := by
  induction length with
  | zero =>
    have hsmall := digest.isLt
    simp only [Nat.sub_zero]
    rw [Nat.div_eq_of_lt hsmall]
    rfl
  | succ length ih =>
    have hexp : 8 * (count - length) = 8 * (count - 1 - length) + 8 := by omega
    have hnext : count - (length + 1) = count - 1 - length := by omega
    simp only [List.range_succ, List.map_append, List.map_cons, List.map_nil, natOfBytesBe,
      List.foldl_append, List.foldl_cons, List.foldl_nil] at ih ⊢
    rw [ih (by omega), hexp, hnext, pow_add, ← Nat.div_div_eq_div_mul]
    simp only [UInt8.toNat_ofBitVec, BitVec.extractLsb'_toNat, Nat.shiftRight_eq_div_pow]
    omega

theorem natOfBytesBe_bytesOfDigest {count : Nat} (digest : BitVec (8 * count)) :
    natOfBytesBe (bytesOfDigest count digest) = digest.toNat := by
  have htake := natOfBytesBe_take_bytesOfDigest digest le_rfl
  rwa [Nat.sub_self, pow_zero, Nat.div_one] at htake

theorem length_bytesOfDigest (count : Nat) (digest : BitVec (8 * count)) :
    (bytesOfDigest count digest).length = count := by
  simp [bytesOfDigest]

/-! ## The relation -/

/-- The operation reads exactly `bytes`, as `value`. -/
def Reads {α : Type} (operation : DecodeM α) (bytes : Bytes) (value : α) : Prop :=
  ∀ decoder rest, InBounds decoder → decoder.data.drop decoder.pos = bytes ++ rest →
    exec operation decoder = (.ok value, { decoder with pos := decoder.pos + bytes.length })

section

variable {α β : Type} {operation first : DecodeM α} {next : α → DecodeM β} {value : α} {result : β}
  {bytes later : Bytes}

/-- Past the bytes that were read, the decoder stands at what follows. -/
theorem at_rest {decoder : Decoder} {rest : Bytes} (hbounds : InBounds decoder)
    (hat : decoder.data.drop decoder.pos = bytes ++ rest) :
    InBounds { decoder with pos := decoder.pos + bytes.length } ∧
      decoder.data.drop (decoder.pos + bytes.length) = rest := by
  have hlength := congrArg List.length hat
  rw [List.length_drop, List.length_append] at hlength
  have hposition := hbounds.position
  refine ⟨⟨by change decoder.pos + bytes.length ≤ decoder.data.length; omega, hbounds.size⟩, ?_⟩
  rw [← List.drop_drop, hat, List.drop_left]

theorem reads_pure (value : α) : Reads (pure value) [] value := fun _ _ _ _ => rfl

theorem Reads.bind (hfirst : Reads first bytes value) (hnext : Reads (next value) later result) :
    Reads (first >>= next) (bytes ++ later) result := by
  intro decoder rest hbounds hat
  rw [List.append_assoc] at hat
  obtain ⟨hinside, hlater⟩ := at_rest hbounds hat
  rw [exec_bind, hfirst decoder _ hbounds hat]
  dsimp only
  rw [hnext _ rest hinside hlater, List.length_append, add_assoc]

theorem Reads.bind_nil (hfirst : Reads first bytes value) (hnext : Reads (next value) [] result) :
    Reads (first >>= next) bytes result := by
  have hbind := hfirst.bind hnext
  rwa [List.append_nil] at hbind

theorem Reads.map (hfirst : Reads first bytes value) (f : α → β) :
    Reads (first >>= fun read => pure (f read)) bytes (f value) :=
  hfirst.bind_nil (reads_pure (f value))

theorem byte_at {decoder : Decoder} {byte : UInt8} {rest : Bytes}
    (hat : decoder.data.drop decoder.pos = byte :: rest) :
    decoder.data[decoder.pos]? = some byte := by
  rw [← List.head?_drop, hat, List.head?_cons]

theorem reads_peekByte_bind {byte : UInt8} {tail : Bytes} {look : UInt8 → DecodeM α}
    (hlook : Reads (look byte) (byte :: tail) value) :
    Reads (peekByte >>= look) (byte :: tail) value := by
  intro decoder rest hbounds hat
  rw [exec_peekByte_bind, byte_at hat]
  exact hlook decoder rest hbounds hat

theorem reads_readByte (byte : UInt8) : Reads readByte [byte] byte := by
  intro decoder rest _ hat
  rw [exec_readByte, byte_at hat]
  rfl

theorem reads_advance (byte : UInt8) : Reads advance [byte] () := fun _ _ _ _ => rfl

theorem reads_readExact (data : Bytes) (hsize : data.length < 2 ^ 63) :
    Reads (readExact (.ofNat data.length)) data data := by
  intro decoder rest hbounds hat
  obtain ⟨hinside, -⟩ := at_rest hbounds hat
  have hposition : decoder.pos + data.length ≤ decoder.data.length := hinside.position
  have hlimit := hbounds.size
  have hlen : (UInt64.ofNat data.length).toNat = data.length := by
    rw [UInt64.toNat_ofNat']
    exact Nat.mod_eq_of_lt (by omega)
  have hstop : (decoder.pos + data.length) % 2 ^ 64 = decoder.pos + data.length :=
    Nat.mod_eq_of_lt (by omega)
  rw [exec_readExact, hlen, hstop, if_neg (by omega), if_neg (by omega), hat, List.take_left]

/-- A bound that is computed from the number of unread bytes is at least the number of bytes that
are read. -/
theorem reads_of_remaining {bounded : Nat → DecodeM α}
    (hread : ∀ unread, bytes.length ≤ unread → Reads (bounded unread) bytes value) :
    Reads (do bounded (← get).remaining) bytes value := by
  intro decoder rest hbounds hat
  have hlength := congrArg List.length hat
  rw [List.length_drop, List.length_append] at hlength
  exact hread decoder.remaining (by rw [Decoder.remaining]; omega) decoder rest hbounds hat

/-- The operation takes `bytes` and goes on as `later`. -/
def Continues (operation : DecodeM α) (bytes : Bytes) (later : DecodeM α) : Prop :=
  ∀ decoder rest, InBounds decoder → decoder.data.drop decoder.pos = bytes ++ rest →
    exec operation decoder = exec later { decoder with pos := decoder.pos + bytes.length }

theorem Continues.refl (operation : DecodeM α) : Continues operation [] operation :=
  fun _ _ _ _ => rfl

theorem Continues.of_eq {later : DecodeM α} (heq : operation = later) :
    Continues operation [] later := heq ▸ Continues.refl operation

theorem Continues.trans {middle final : DecodeM α} (hfirst : Continues operation bytes middle)
    (hthen : Continues middle later final) : Continues operation (bytes ++ later) final := by
  intro decoder rest hbounds hat
  rw [List.append_assoc] at hat
  obtain ⟨hinside, hlater⟩ := at_rest hbounds hat
  rw [hfirst decoder _ hbounds hat, hthen _ rest hinside hlater, List.length_append, add_assoc]

theorem Reads.continues (hfirst : Reads first bytes value) :
    Continues (first >>= next) bytes (next value) := by
  intro decoder rest hbounds hat
  rw [exec_bind, hfirst decoder rest hbounds hat]

theorem Continues.reads (hcontinues : Continues operation bytes (pure value)) :
    Reads operation bytes value :=
  fun decoder rest hbounds hat => hcontinues decoder rest hbounds hat

end

/-! ## Heads -/

theorem initialByte_parts : ∀ major info : UInt8, major < 8 → info < 32 →
    (major <<< 5 ||| info) >>> 5 = major ∧ (major <<< 5 ||| info) &&& 0x1f = info &&& 0x1f ∧
      info &&& 0x1f = info := by
  have hsmall : ∀ major : Fin 8, ∀ info : Fin 32,
      (UInt8.ofNat major <<< 5 ||| UInt8.ofNat info) >>> 5 = UInt8.ofNat major ∧
        (UInt8.ofNat major <<< 5 ||| UInt8.ofNat info) &&& 0x1f = UInt8.ofNat info &&& 0x1f ∧
        UInt8.ofNat info &&& 0x1f = UInt8.ofNat info := by
    decide
  intro major info hmajor hinfo
  have hparts := hsmall ⟨major.toNat, hmajor⟩
    ⟨info.toNat, hinfo⟩
  simpa using hparts

theorem reads_bigEndian (count : Nat) (hcount : count ≤ 8) {value : UInt64}
    (hvalue : value.toNat < 2 ^ (8 * count)) :
    Reads (do return .ofNat (natOfBytesBe (← readExact (.ofNat count))))
      (bytesOfDigest count (BitVec.ofNat (8 * count) value.toNat)) value := by
  have hlength := length_bytesOfDigest count (BitVec.ofNat (8 * count) value.toNat)
  have hexact := reads_readExact (bytesOfDigest count (BitVec.ofNat (8 * count) value.toNat))
    (by rw [hlength]; omega)
  rw [hlength] at hexact
  have hvalueBack : UInt64.ofNat (natOfBytesBe
      (bytesOfDigest count (BitVec.ofNat (8 * count) value.toNat))) = value := by
    rw [natOfBytesBe_bytesOfDigest, BitVec.toNat_ofNat, Nat.mod_eq_of_lt hvalue]
    exact UInt64.ofNat_toNat
  have hread := hexact.map fun raw => UInt64.ofNat (natOfBytesBe raw)
  rwa [hvalueBack] at hread

/-- The bytes are a head: an initial byte with the major type and an argument that is read back.  It
does not announce an indefinite length. -/
def IsHead (major : UInt8) (value : UInt64) (head : Bytes) : Prop :=
  ∃ initial argument, head = initial :: argument ∧ initial >>> 5 = major ∧
    initial &&& 0x1f ≠ aiIndef ∧ Reads (readArgument initial) argument value

variable {major : UInt8}

theorem isHead_of_info {info : UInt8} (hmajor : major < 8) (hinfo : info < aiIndef)
    {argument : Bytes} {value : UInt64} (hread : Reads (readArgument info) argument value) :
    IsHead major value ((major <<< 5 ||| info) :: argument) := by
  obtain ⟨hhigh, hlow, hsame⟩ := initialByte_parts major info hmajor (UInt8.lt_trans hinfo (by decide))
  refine ⟨_, _, rfl, hhigh, by rw [hlow, hsame]; exact UInt8.ne_of_lt hinfo, ?_⟩
  unfold readArgument at hread ⊢
  rwa [hlow]

theorem writeTypeAndArg_head (hmajor : major < 8) (value : UInt64) :
    IsHead major value (writeTypeAndArg major value) := by
  have hword := value.toNat_lt
  have hbyte : value.toNat < 256 → value.toUInt8.toUInt64 = value := fun hsmall =>
    UInt64.toNat_inj.mp (by rw [UInt8.toNat_toUInt64, UInt64.toNat_toUInt8]; omega)
  unfold writeTypeAndArg
  split_ifs with hshort hone htwo hfour
  · -- a short argument is part of the initial byte
    have hvalue : value.toNat < 24 := UInt64.lt_iff_toNat_lt.mp hshort
    have hinfo : value.toUInt8 < 24 := UInt8.lt_iff_toNat_lt.mpr (by
      rw [UInt64.toNat_toUInt8]
      exact lt_of_le_of_lt (Nat.mod_le _ _) hvalue)
    refine isHead_of_info hmajor (UInt8.lt_trans hinfo (by decide)) ?_
    obtain ⟨-, -, hsame⟩ := initialByte_parts 0 value.toUInt8 (by decide)
      (UInt8.lt_trans hinfo (by decide))
    unfold readArgument
    simp only [hsame, if_pos hinfo, hbyte (by omega)]
    exact reads_pure value
  · have hread := (reads_readByte value.toUInt8).map UInt8.toUInt64
    rw [hbyte (Nat.lt_succ_of_le hone)] at hread
    exact isHead_of_info hmajor (by decide) hread
  · exact isHead_of_info hmajor (by decide) (reads_bigEndian 2 (by decide)
      (Nat.lt_succ_of_le htwo))
  · exact isHead_of_info hmajor (by decide) (reads_bigEndian 4 (by decide)
      (Nat.lt_succ_of_le hfour))
  · exact isHead_of_info hmajor (by decide) (reads_bigEndian 8 (by decide) hword)

theorem reads_expectMajor (hmajor : major < 8) (value : UInt64) :
    Reads (expectMajor major) (writeTypeAndArg major value) value := by
  obtain ⟨initial, argument, hhead, hhigh, -, hread⟩ := writeTypeAndArg_head hmajor value
  rw [hhead]
  refine (reads_readByte initial).bind ?_
  simp only [hhigh, ne_eq]
  exact hread

theorem reads_readUnsigned (value : UInt64) : Reads readUnsigned (unsigned value) value :=
  reads_expectMajor (by decide) value

theorem reads_readNegative (value : UInt64) : Reads readNegative (negative value) value :=
  reads_expectMajor (by decide) value

theorem reads_readArray (length : Nat) : Reads readArray (array length) (.ofNat length) :=
  reads_expectMajor (by decide) _

theorem reads_readTag (number : UInt64) : Reads readTag (tag number) number :=
  reads_expectMajor (by decide) number

theorem reads_readBytes (data : Bytes) (hsize : data.length < 2 ^ 63) :
    Reads readBytes (bytes data) data :=
  (reads_expectMajor (by decide) _).bind (reads_readExact data hsize)

/-- The bytes start with a major type. -/
def Starts (major : UInt8) (bytes : Bytes) : Prop :=
  ∃ initial tail, bytes = initial :: tail ∧ initial >>> 5 = major

theorem starts_head (hmajor : major < 8) (value : UInt64) :
    Starts major (writeTypeAndArg major value) := by
  obtain ⟨initial, rest, hhead, hhigh, -, -⟩ := writeTypeAndArg_head hmajor value
  exact ⟨initial, rest, hhead, hhigh⟩

theorem Starts.append {bytes : Bytes} (hstarts : Starts major bytes) (tail : Bytes) :
    Starts major (bytes ++ tail) := by
  obtain ⟨initial, rest, rfl, hhigh⟩ := hstarts
  exact ⟨initial, rest ++ tail, rfl, hhigh⟩

theorem Starts.reads_peekMajor {α : Type} {bytes : Bytes} {look : UInt8 → DecodeM α} {value : α}
    (hstarts : Starts major bytes) (hlook : Reads (look major) bytes value) :
    Reads (peekMajor >>= look) bytes value := by
  obtain ⟨initial, tail, rfl, rfl⟩ := hstarts
  have hpeek : Reads (peekByte >>= fun byte => look (byte >>> 5)) (initial :: tail) value :=
    reads_peekByte_bind hlook
  simpa [peekMajor] using hpeek

theorem reads_collectionBegin (hmajor : major < 8) (length : UInt64) :
    Reads (collectionBegin major) (writeTypeAndArg major length) (some length) := by
  obtain ⟨initial, rest, hhead, hhigh, hindef, -⟩ := writeTypeAndArg_head hmajor length
  have hread := (reads_expectMajor hmajor length).map some
  rw [hhead] at hread ⊢
  refine reads_peekByte_bind ?_
  simp only [hhigh, ne_eq, if_neg hindef]
  exact hread

theorem reads_collectionBegin_indef {initial : UInt8} (hhigh : initial >>> 5 = major)
    (hindef : initial &&& 0x1f = aiIndef) : Reads (collectionBegin major) [initial] none := by
  refine reads_peekByte_bind ?_
  simp only [hhigh, ne_eq, if_pos hindef]
  exact (reads_advance initial).map fun _ => none

variable (parts : List Bytes)

theorem reads_appendChunks (hsize : ∀ part ∈ parts, part.length < 2 ^ 63) (rounds : Nat)
    (hrounds : parts.length < rounds) (assembled : Bytes) :
    Reads (appendChunks rounds assembled) ((parts.map bytes).flatten ++ [breakByte])
      (assembled ++ parts.flatten) := by
  induction parts generalizing rounds assembled with
  | nil =>
    obtain ⟨rounds, rfl⟩ := Nat.exists_eq_succ_of_ne_zero (Nat.ne_of_gt hrounds)
    simp only [List.flatten_nil, List.append_nil]
    refine reads_peekByte_bind ?_
    rw [if_pos rfl]
    exact (reads_advance breakByte).map fun _ => assembled
  | cons part rest ih =>
    obtain ⟨rounds, rfl⟩ := Nat.exists_eq_succ_of_ne_zero (Nat.ne_of_gt (Nat.zero_lt_of_lt hrounds))
    have hchunk := reads_readBytes part (hsize part List.mem_cons_self)
    have hrest := ih (fun other hother => hsize other (List.mem_cons_of_mem _ hother)) rounds
      (by simpa using hrounds) (assembled ++ part)
    have hboth : Reads (do appendChunks rounds (assembled ++ (← readBytes)))
        (bytes part ++ ((rest.map bytes).flatten ++ [breakByte]))
        (assembled ++ part ++ rest.flatten) := hchunk.bind hrest
    obtain ⟨initial, tail, hhead, hhigh, -, -⟩ :=
      @writeTypeAndArg_head majorBytes (by decide) (.ofNat part.length)
    have hfirst : initial ≠ breakByte := by
      rintro rfl
      exact absurd hhigh (by decide)
    rw [List.map_cons, List.flatten_cons, List.flatten_cons, List.append_assoc, ← List.append_assoc
      assembled]
    rw [Cbor.bytes, hhead, List.cons_append, List.cons_append] at hboth ⊢
    refine reads_peekByte_bind ?_
    rw [if_neg hfirst]
    exact hboth

theorem reads_readBytesOwned_definite (data : Bytes) (hsize : data.length < 2 ^ 63) :
    Reads readBytesOwned (bytes data) data := by
  obtain ⟨initial, rest, hhead, hhigh, hindef, -⟩ :=
    @writeTypeAndArg_head majorBytes (by decide) (.ofNat data.length)
  have hread := reads_readBytes data hsize
  rw [Cbor.bytes, hhead] at hread ⊢
  refine reads_peekByte_bind ?_
  simp only [hhigh, ne_eq, not_true_eq_false, if_false, if_neg hindef]
  exact hread

theorem reads_readBytesOwned_chunked (hsize : ∀ part ∈ parts, part.length < 2 ^ 63) :
    Reads readBytesOwned ([0x5f] ++ (parts.map bytes).flatten ++ [breakByte]) parts.flatten := by
  have hlength : ∀ part : Bytes, 1 ≤ (bytes part).length := by
    intro part
    obtain ⟨initial, rest, hhead, -, -, -⟩ :=
      @writeTypeAndArg_head majorBytes (by decide) (.ofNat part.length)
    simp [Cbor.bytes, hhead]
  have hcount : ∀ some : List Bytes, some.length ≤ (some.map bytes).flatten.length := by
    intro some
    induction some with
    | nil => simp
    | cons part rest ih =>
      have hpart := hlength part
      simp only [List.length_cons, List.map_cons, List.flatten_cons, List.length_append]
      omega
  rw [List.singleton_append]
  refine reads_peekByte_bind ?_
  have hchunks : ∀ unread, ((parts.map bytes).flatten ++ [breakByte]).length ≤ unread →
      Reads (appendChunks (unread + 1) []) ((parts.map bytes).flatten ++ [breakByte])
        parts.flatten := by
    intro unread hunread
    have hparts := hcount parts
    rw [List.length_append] at hunread
    exact reads_appendChunks parts hsize (unread + 1) (by omega) []
  exact (reads_advance 0x5f).bind (reads_of_remaining hchunks)

end Yggdrasil.Ledger.Cbor
