import Mathlib.Logic.Relation
import Yggdrasil.Ledger.Cbor

/-!
# No byte string crashes the decoder, except by its length

The reader of `crates/ledger/src/cbor.rs` tests `pos + len > data.len()` in machine words before it
slices.  A byte or text string that announces a length near `2^64` makes the sum wrap below the
position; the test passes and the slice starts after its end.

`operation_safe_iff` says for every operation and every position within the slice that this is the
only way to crash: the operation returns, with the position within the slice where it succeeds, if
and only if no string that it comes to is overlong.  For `skip` the items it comes to are those of
the nested structure, as far as the items before them could be skipped (`Meets`).

The number of rounds and the depth that bound the loops of the model never run out
(`panics_untilBreak`, `exec_skip`).  The stack is not modelled.
-/

namespace Yggdrasil.Ledger.Cbor

/-! ## Running operations -/

/-- The result and the decoder after an operation. -/
def exec {α : Type} (operation : DecodeM α) (decoder : Decoder) : Except Failure α × Decoder :=
  operation.run.run decoder

/-- The position is within the slice.  A slice has less than `2^63` bytes. -/
structure InBounds (decoder : Decoder) : Prop where
  position : decoder.pos ≤ decoder.data.length
  size : decoder.data.length < 2 ^ 63

def Panics {α : Type} (operation : DecodeM α) (decoder : Decoder) : Prop :=
  (exec operation decoder).1 = .error .panicked

/-- The operation moves the position forward within the slice, whatever its result. -/
def Forward {α : Type} (operation : DecodeM α) : Prop :=
  ∀ decoder, InBounds decoder → (exec operation decoder).2.data = decoder.data ∧
    decoder.pos ≤ (exec operation decoder).2.pos ∧ InBounds (exec operation decoder).2

/-- The operation never panics. -/
def Calm {α : Type} (operation : DecodeM α) : Prop :=
  ∀ decoder, InBounds decoder → ¬ Panics operation decoder

/-- The operation moves forward and never panics. -/
structure Quiet {α : Type} (operation : DecodeM α) : Prop where
  forward : Forward operation
  calm : Calm operation

/-- The operation takes a byte where it succeeds. -/
def Eats {α : Type} (operation : DecodeM α) : Prop :=
  ∀ decoder after value, InBounds decoder → exec operation decoder = (.ok value, after) →
    decoder.pos < after.pos

section

variable {α β : Type} {first : DecodeM α} {next : α → DecodeM β} {decoder : Decoder}

/-- What a forward operation leaves, by the name of the decoder after it. -/
theorem Forward.run (hfirst : Forward first) {after : Decoder} {result : Except Failure α}
    (hbounds : InBounds decoder) (hexec : exec first decoder = (result, after)) :
    after.data = decoder.data ∧ decoder.pos ≤ after.pos ∧ InBounds after := by
  have hspec := hfirst decoder hbounds
  rwa [hexec] at hspec

theorem exec_bind : exec (first >>= next) decoder =
    match exec first decoder with
    | (.ok value, after) => exec (next value) after
    | (.error failure, after) => (.error failure, after) := by
  simp only [exec, ExceptT.run_bind, StateT.run_bind]
  rcases StateT.run (ExceptT.run first) decoder with ⟨result, after⟩
  cases result <;> rfl

variable (reason : LedgerError)

theorem exec_fail :
    exec (DecodeM.fail reason : DecodeM α) decoder = (.error (.error reason), decoder) := rfl

theorem panics_bind : Panics (first >>= next) decoder ↔
    Panics first decoder ∨
      ∃ value after, exec first decoder = (.ok value, after) ∧ Panics (next value) after := by
  unfold Panics
  rw [exec_bind]
  rcases exec first decoder with ⟨result, after⟩
  cases result <;> simp

/-- What follows a result that is known. -/
theorem exists_result_iff {value : α} {after : Decoder}
    (hexec : exec first decoder = (.ok value, after)) {motive : α → Decoder → Prop} :
    (∃ found later, exec first decoder = (.ok found, later) ∧ motive found later) ↔
      motive value after := by
  simp [hexec]

theorem not_panics_pure (value : α) : ¬ Panics (pure value : DecodeM α) decoder := nofun

theorem not_panics_fail :
    ¬ Panics (DecodeM.fail reason : DecodeM α) decoder := nofun

theorem panics_discard_iff :
    Panics (first >>= fun _ => (pure () : DecodeM Unit)) decoder ↔ Panics first decoder :=
  panics_bind.trans (or_iff_left fun ⟨_, _, _, hpanics⟩ => not_panics_pure _ hpanics)

theorem Forward.bind (hfirst : Forward first) (hnext : ∀ value, Forward (next value)) :
    Forward (first >>= next) := by
  intro decoder hbounds
  rw [exec_bind]
  rcases hrun : exec first decoder with ⟨result, after⟩
  obtain ⟨hdata, hpos, hafter⟩ := hfirst.run hbounds hrun
  cases result with
  | error failure => exact ⟨hdata, hpos, hafter⟩
  | ok value =>
    obtain ⟨hdata', hpos', hlater⟩ := hnext value after hafter
    exact ⟨hdata'.trans hdata, hpos.trans hpos', hlater⟩

theorem forward_pure (value : α) : Forward (pure value : DecodeM α) :=
  fun _ hbounds => ⟨rfl, le_rfl, hbounds⟩

theorem forward_fail : Forward (DecodeM.fail reason : DecodeM α) :=
  fun _ hbounds => ⟨rfl, le_rfl, hbounds⟩

variable {condition : Prop}

theorem Forward.ite [Decidable condition] {yes no : DecodeM α} (hyes : Forward yes)
    (hno : Forward no) : Forward (if condition then yes else no) := by
  split
  · exact hyes
  · exact hno

theorem quiet_pure (value : α) : Quiet (pure value : DecodeM α) :=
  ⟨forward_pure value, fun _ _ => nofun⟩

theorem quiet_fail : Quiet (DecodeM.fail reason : DecodeM α) :=
  ⟨forward_fail reason, fun _ _ => nofun⟩

theorem Quiet.ite [Decidable condition] {yes no : DecodeM α} (hyes : Quiet yes) (hno : Quiet no) :
    Quiet (if condition then yes else no) := by
  split
  · exact hyes
  · exact hno

theorem Quiet.bind (hfirst : Quiet first) (hnext : ∀ value, Quiet (next value)) :
    Quiet (first >>= next) := by
  refine ⟨hfirst.forward.bind fun value => (hnext value).forward, fun decoder hbounds hpanics => ?_⟩
  rcases panics_bind.mp hpanics with hpanics | ⟨value, after, hexec, hpanics⟩
  · exact hfirst.calm decoder hbounds hpanics
  · exact (hnext value).calm after (hfirst.forward.run hbounds hexec).2.2 hpanics

/-- What follows an operation that takes a byte takes one too, in whatever order. -/
theorem Eats.bind (hfirst : Eats first) (hforward : Forward first)
    (hnext : ∀ value, Forward (next value)) : Eats (first >>= next) := by
  intro decoder later value hbounds hexec
  rw [exec_bind] at hexec
  rcases hrun : exec first decoder with ⟨result, after⟩
  rw [hrun] at hexec
  cases result with
  | error failure => cases hexec
  | ok middle =>
    have hpos := ((hnext middle).run (hforward.run hbounds hrun).2.2 hexec).2.1
    exact (hfirst decoder after middle hbounds hrun).trans_le hpos

end

variable {α : Type} {decoder : Decoder}

section

variable {operation : DecodeM α} {after : Decoder} {result : Except Failure α} {value : α}

theorem remaining_le (hforward : Forward operation) (hbounds : InBounds decoder)
    (hexec : exec operation decoder = (result, after)) :
    InBounds after ∧ after.remaining ≤ decoder.remaining := by
  obtain ⟨hdata, hpos, hafter⟩ := hforward.run hbounds hexec
  refine ⟨hafter, ?_⟩
  unfold Decoder.remaining
  rw [hdata]
  omega

theorem remaining_lt (hforward : Forward operation) (heats : Eats operation)
    (hbounds : InBounds decoder) (hexec : exec operation decoder = (.ok value, after)) :
    InBounds after ∧ after.remaining < decoder.remaining := by
  obtain ⟨hdata, -, hafter⟩ := hforward.run hbounds hexec
  have hpos := heats decoder after value hbounds hexec
  have hwithin := hafter.position
  refine ⟨hafter, ?_⟩
  unfold Decoder.remaining
  rw [hdata] at hwithin ⊢
  omega

end

/-! ## Single reads -/

theorem exec_peekByte (decoder : Decoder) : exec peekByte decoder =
    match decoder.data[decoder.pos]? with
    | some byte => (.ok byte, decoder)
    | none => (.error (.error .cborUnexpectedEof), decoder) := by
  show exec (get >>= fun current => _) decoder = _
  rw [exec_bind]
  show exec (match decoder.data[decoder.pos]? with
    | some byte => pure byte
    | none => DecodeM.fail .cborUnexpectedEof) decoder = _
  cases decoder.data[decoder.pos]? <;> rfl

theorem exec_peekByte_bind (look : UInt8 → DecodeM α) (decoder : Decoder) :
    exec (peekByte >>= look) decoder =
      match decoder.data[decoder.pos]? with
      | some byte => exec (look byte) decoder
      | none => (.error (.error .cborUnexpectedEof), decoder) := by
  rw [exec_bind, exec_peekByte]
  cases decoder.data[decoder.pos]? <;> rfl

theorem exec_readByte (decoder : Decoder) : exec readByte decoder =
    match decoder.data[decoder.pos]? with
    | some byte => (.ok byte, { decoder with pos := decoder.pos + 1 })
    | none => (.error (.error .cborUnexpectedEof), decoder) :=
  exec_peekByte_bind _ decoder

theorem exec_readExact (len : UInt64) (decoder : Decoder) : exec (readExact len) decoder =
    if decoder.data.length < (decoder.pos + len.toNat) % 2 ^ 64 then
      (.error (.error .cborUnexpectedEof), decoder)
    else if (decoder.pos + len.toNat) % 2 ^ 64 < decoder.pos then (.error .panicked, decoder)
    else (.ok ((decoder.data.drop decoder.pos).take len.toNat),
      { decoder with pos := (decoder.pos + len.toNat) % 2 ^ 64 }) := by
  unfold readExact
  rw [exec_bind]
  show exec (if decoder.data.length < (decoder.pos + len.toNat) % 2 ^ 64 then _ else _) decoder = _
  split
  · rfl
  · split <;> rfl

/-- What follows a look at a byte may use that the byte is there. -/
theorem forward_peekByte_bind {look : UInt8 → DecodeM α}
    (hlook : ∀ byte decoder, decoder.pos < decoder.data.length → InBounds decoder →
      (exec (look byte) decoder).2.data = decoder.data ∧
        decoder.pos ≤ (exec (look byte) decoder).2.pos ∧ InBounds (exec (look byte) decoder).2) :
    Forward (peekByte >>= look) := by
  intro decoder hbounds
  rw [exec_peekByte_bind]
  cases hbyte : decoder.data[decoder.pos]? with
  | none => exact ⟨rfl, le_rfl, hbounds⟩
  | some byte => exact hlook byte decoder (List.getElem?_eq_some_iff.mp hbyte).1 hbounds

theorem quiet_peekByte : Quiet peekByte := by
  refine ⟨fun decoder hbounds => ?_, fun decoder _ => ?_⟩
  · rw [exec_peekByte]
    cases decoder.data[decoder.pos]? <;> exact ⟨rfl, le_rfl, hbounds⟩
  · rw [Panics, exec_peekByte]
    cases decoder.data[decoder.pos]? <;> nofun

theorem quiet_readByte : Quiet readByte := by
  refine ⟨forward_peekByte_bind fun byte decoder hbyte hbounds =>
    ⟨rfl, Nat.le_succ _, hbyte, hbounds.size⟩, fun decoder _ => ?_⟩
  rw [Panics, exec_readByte]
  cases decoder.data[decoder.pos]? <;> nofun

theorem eats_readByte : Eats readByte := by
  intro decoder after value _ hexec
  rw [exec_readByte] at hexec
  cases hbyte : decoder.data[decoder.pos]? with
  | none =>
    rw [hbyte] at hexec
    cases hexec
  | some byte =>
    rw [hbyte] at hexec
    cases hexec
    exact Nat.lt_succ_self _

theorem forward_readExact (len : UInt64) : Forward (readExact len) := by
  intro decoder hbounds
  rw [exec_readExact]
  split
  · exact ⟨rfl, le_rfl, hbounds⟩
  · split
    · exact ⟨rfl, le_rfl, hbounds⟩
    · rename_i hwithin hafter
      exact ⟨rfl, Nat.le_of_not_lt hafter, Nat.le_of_not_lt hwithin, hbounds.size⟩

/-- Where the sum wraps, it is below the position, and the test of the length passes. -/
theorem panics_readExact_iff {len : UInt64} (hbounds : InBounds decoder) :
    Panics (readExact len) decoder ↔ 2 ^ 64 ≤ decoder.pos + len.toNat := by
  have hpos := hbounds.position
  have hsize := hbounds.size
  have hlen := len.toNat_lt
  rw [Panics, exec_readExact]
  by_cases hwraps : 2 ^ 64 ≤ decoder.pos + len.toNat
  · have hstop : (decoder.pos + len.toNat) % 2 ^ 64 = decoder.pos + len.toNat - 2 ^ 64 := by
      rw [Nat.mod_eq_sub_mod hwraps, Nat.mod_eq_of_lt (by omega)]
    rw [if_neg (by omega), if_pos (by omega)]
    exact iff_of_true rfl hwraps
  · rw [Nat.mod_eq_of_lt (by omega)]
    simp only [hwraps, iff_false]
    split
    · nofun
    · rw [if_neg (by omega)]
      nofun

/-- A number of a few bytes, whatever is made of it. -/
theorem quiet_readExact {len : UInt64} (hlen : len.toNat ≤ 8) (read : Bytes → α) :
    Quiet (readExact len >>= fun bytes => pure (read bytes)) := by
  refine Quiet.bind ⟨forward_readExact len, fun decoder hbounds hpanics => ?_⟩ fun _ => quiet_pure _
  have hwraps := (panics_readExact_iff hbounds).mp hpanics
  have hpos := hbounds.position
  have hsize := hbounds.size
  omega

theorem quiet_readArgument (initial : UInt8) : Quiet (readArgument initial) :=
  (quiet_pure _).ite <| (quiet_readByte.bind fun _ => quiet_pure _).ite <|
    (quiet_readExact (by decide) _).ite <| (quiet_readExact (by decide) _).ite <|
    (quiet_readExact (by decide) _).ite (quiet_fail _)

theorem quiet_expectMajor (expected : UInt8) : Quiet (expectMajor expected) :=
  quiet_readByte.bind fun initial => (quiet_fail _).ite (quiet_readArgument initial)

/-! ## Overlong strings -/

/-- The decoder is at a string of a major type that announces more bytes than machine words can
count from its contents on. -/
def Overlong (major : UInt8) (decoder : Decoder) : Prop :=
  ∃ len contents, exec (expectMajor major) decoder = (.ok len, contents) ∧
    2 ^ 64 ≤ contents.pos + len.toNat

theorem panics_string_iff {major : UInt8} (hbounds : InBounds decoder) :
    Panics (expectMajor major >>= readExact) decoder ↔ Overlong major decoder := by
  rw [panics_bind, or_iff_right ((quiet_expectMajor major).calm decoder hbounds)]
  refine exists_congr fun len => exists_congr fun contents => and_congr_right fun hexec => ?_
  exact panics_readExact_iff ((quiet_expectMajor major).forward.run hbounds hexec).2.2

theorem forward_string (major : UInt8) : Forward (expectMajor major >>= readExact) :=
  (quiet_expectMajor major).forward.bind forward_readExact

/-! ## Loops -/

/-- A number of successful rounds leads from one decoder to another. -/
inductive Rounds (item : DecodeM Unit) : Nat → Decoder → Decoder → Prop
  | zero (decoder : Decoder) : Rounds item 0 decoder decoder
  | succ {count : Nat} {decoder after final : Decoder} (hitem : exec item decoder = (.ok (), after))
      (hlater : Rounds item count after final) : Rounds item (count + 1) decoder final

variable {item : DecodeM Unit}

variable {decoder : Decoder}

theorem Forward.remaining_rounds (hitem : Forward item) {count : Nat} {final : Decoder}
    (hrounds : Rounds item count decoder final) (hbounds : InBounds decoder) :
    InBounds final ∧ final.remaining ≤ decoder.remaining := by
  induction hrounds with
  | zero => exact ⟨hbounds, le_rfl⟩
  | succ hexec _ ih =>
    obtain ⟨hafter, hle⟩ := remaining_le hitem hbounds hexec
    obtain ⟨hfinal, hle'⟩ := ih hafter
    exact ⟨hfinal, hle'.trans hle⟩

theorem panics_repeatTimes_iff {count : Nat} :
    Panics (repeatTimes item count) decoder ↔
      ∃ done < count, ∃ final, Rounds item done decoder final ∧ Panics item final := by
  induction count generalizing decoder with
  | zero => exact iff_of_false nofun fun ⟨_, hlt, _⟩ => absurd hlt (Nat.not_lt_zero _)
  | succ count ih =>
    show Panics (item >>= fun _ => repeatTimes item count) decoder ↔ _
    rw [panics_bind]
    constructor
    · rintro (hfirst | ⟨⟨⟩, after, hexec, hlater⟩)
      · exact ⟨0, Nat.succ_pos _, decoder, .zero _, hfirst⟩
      · obtain ⟨done, hlt, final, hrounds, hpanics⟩ := ih.mp hlater
        exact ⟨done + 1, Nat.succ_lt_succ hlt, final, .succ hexec hrounds, hpanics⟩
    · rintro ⟨done, hlt, final, hrounds, hpanics⟩
      cases hrounds with
      | zero => exact .inl hpanics
      | succ hexec hlater =>
        exact .inr ⟨(), _, hexec, ih.mpr ⟨_, Nat.lt_of_succ_lt_succ hlt, final, hlater, hpanics⟩⟩

/-- A round of a loop that stops at the stop code. -/
def beforeBreak (item : DecodeM Unit) : DecodeM Unit := do
  if (← peekByte) = breakByte then .fail .cborUnexpectedEof else item

theorem Forward.beforeBreak (hitem : Forward item) : Forward (beforeBreak item) := by
  refine quiet_peekByte.forward.bind fun byte => ?_
  split
  · exact forward_fail _
  · exact hitem

theorem Eats.beforeBreak (hitem : Eats item) : Eats (beforeBreak item) := by
  intro decoder after value hbounds hexec
  rw [Cbor.beforeBreak, exec_peekByte_bind] at hexec
  split at hexec
  · split at hexec
    · cases hexec
    · exact hitem decoder after value hbounds hexec
  · cases hexec

theorem Forward.repeatTimes (hitem : Forward item) (count : Nat) :
    Forward (repeatTimes item count) := by
  induction count with
  | zero => exact forward_pure _
  | succ count ih => exact hitem.bind fun _ => ih

theorem Forward.untilBreak (hitem : Forward item) (rounds : Nat) :
    Forward (untilBreak item rounds) := by
  induction rounds with
  | zero => exact fun _ hbounds => ⟨rfl, le_rfl, hbounds⟩
  | succ rounds ih =>
    refine forward_peekByte_bind fun byte decoder hbyte hbounds => ?_
    split
    · exact ⟨rfl, Nat.le_succ _, hbyte, hbounds.size⟩
    · exact hitem.bind (fun _ => ih) decoder hbounds

/-- A loop up to the stop code panics where its first round or what follows does. -/
theorem panics_untilBreak_succ {rounds : Nat} : Panics (untilBreak item (rounds + 1)) decoder ↔
    Panics (beforeBreak item >>= fun _ => untilBreak item rounds) decoder := by
  rw [Panics, Panics, exec_bind, untilBreak, beforeBreak, exec_peekByte_bind, exec_peekByte_bind]
  cases decoder.data[decoder.pos]? with
  | none => exact iff_of_false nofun nofun
  | some byte =>
    by_cases hbreak : byte = breakByte
    · simp only [if_pos hbreak]
      exact iff_of_false nofun nofun
    · simp only [if_neg hbreak]
      rw [exec_bind]

/-- A loop up to the stop code panics in one of its rounds: every round takes a byte, so that the
bound of the rounds is not reached. -/
theorem panics_untilBreak (hforward : Forward item) (heats : Eats item) {rounds : Nat}
    (hbounds : InBounds decoder) (hfuel : decoder.remaining < rounds) :
    Panics (untilBreak item rounds) decoder ↔
      ∃ done final, Rounds (beforeBreak item) done decoder final ∧
        Panics (beforeBreak item) final := by
  induction rounds generalizing decoder with
  | zero => exact absurd hfuel (Nat.not_lt_zero _)
  | succ rounds ih =>
    have hlater : ∀ after, exec (beforeBreak item) decoder = (.ok (), after) →
        (Panics (untilBreak item rounds) after ↔ _) := fun after hexec =>
      have ⟨hafter, hless⟩ := remaining_lt hforward.beforeBreak heats.beforeBreak hbounds hexec
      ih hafter (by omega)
    rw [panics_untilBreak_succ, panics_bind]
    constructor
    · rintro (hfirst | ⟨⟨⟩, after, hexec, hpanics⟩)
      · exact ⟨0, decoder, .zero _, hfirst⟩
      · obtain ⟨done, final, hrounds, hpanics⟩ := (hlater after hexec).mp hpanics
        exact ⟨done + 1, final, .succ hexec hrounds, hpanics⟩
    · rintro ⟨done, final, hrounds, hpanics⟩
      cases hrounds with
      | zero => exact .inl hpanics
      | succ hexec hrounds =>
        exact .inr ⟨(), _, hexec, (hlater _ hexec).mpr ⟨_, final, hrounds, hpanics⟩⟩

/-! ## Skipping without a depth -/

theorem exec_skipContents (initial : UInt8) (decoder : Decoder) :
    exec (skipContents initial item) decoder =
      if initial &&& 0x1f = aiIndef then exec (untilBreak item (decoder.remaining + 1)) decoder
      else exec (readArgument initial >>= fun count => repeatTimes item count.toNat) decoder := by
  unfold skipContents
  split
  · rw [exec_bind]
    rfl
  · rfl

theorem Forward.skipContents (hitem : Forward item) (initial : UInt8) :
    Forward (skipContents initial item) := by
  intro decoder hbounds
  rw [exec_skipContents]
  split
  · exact hitem.untilBreak _ decoder hbounds
  · exact (quiet_readArgument initial).forward.bind (fun _ => hitem.repeatTimes _) decoder hbounds

/-- A simple value or a float. -/
def skipSimple (ai : UInt8) : DecodeM Unit :=
  if ai < 24 then pure ()
  else if ai = 24 then readByte >>= fun _ => pure ()
  else if ai = 25 then readExact 2 >>= fun _ => pure ()
  else if ai = 26 then readExact 4 >>= fun _ => pure ()
  else if ai = 27 then readExact 8 >>= fun _ => pure ()
  else DecodeM.fail (.cborInvalidAdditionalInfo ai)

theorem quiet_skipSimple (ai : UInt8) : Quiet (skipSimple ai) :=
  (quiet_pure _).ite <| (quiet_readByte.bind fun _ => quiet_pure _).ite <|
    (quiet_readExact (by decide) _).ite <| (quiet_readExact (by decide) _).ite <|
    (quiet_readExact (by decide) _).ite (quiet_fail _)

/-- A string, whole or in chunks. -/
def skipString (initial : UInt8) (item : DecodeM Unit) : DecodeM Unit :=
  if initial &&& 0x1f = aiIndef then skipContents initial item
  else readArgument initial >>= fun len => readExact len >>= fun _ => pure ()

theorem Forward.skipString (hitem : Forward item) (initial : UInt8) :
    Forward (skipString initial item) :=
  (hitem.skipContents initial).ite <| (quiet_readArgument initial).forward.bind fun len =>
    (forward_readExact len).bind fun _ => forward_pure _

/-- One level of `skip` after its initial byte, with `item` for the nested items. -/
def skipRest (initial : UInt8) (item : DecodeM Unit) : DecodeM Unit :=
  if initial >>> 5 = majorUnsigned ∨ initial >>> 5 = majorNegative then
    readArgument initial >>= fun _ => pure ()
  else if initial >>> 5 = majorBytes ∨ initial >>> 5 = majorText then skipString initial item
  else if initial >>> 5 = majorArray then skipContents initial item
  else if initial >>> 5 = majorMap then skipContents initial (item >>= fun _ => item)
  else if initial >>> 5 = majorSimple then skipSimple (initial &&& 0x1f)
  else readArgument initial >>= fun _ => item

theorem skipNested_succ (depth : Nat) : skipNested (depth + 1) =
    readByte >>= fun initial => skipRest initial (skipNested depth) := rfl

theorem Forward.skipRest (hitem : Forward item) (initial : UInt8) :
    Forward (skipRest initial item) :=
  ((quiet_readArgument initial).forward.bind fun _ => forward_pure _).ite <|
    (hitem.skipString initial).ite <| (hitem.skipContents initial).ite <|
    ((hitem.bind fun _ => hitem).skipContents initial).ite <|
    (quiet_skipSimple _).forward.ite ((quiet_readArgument initial).forward.bind fun _ => hitem)

theorem forward_skipNested (depth : Nat) : Forward (skipNested depth) := by
  induction depth with
  | zero => exact fun _ hbounds => ⟨rfl, le_rfl, hbounds⟩
  | succ depth ih =>
    rw [skipNested_succ]
    exact quiet_readByte.forward.bind fun initial => ih.skipRest initial

theorem exec_skip_eq (decoder : Decoder) :
    exec skip decoder = exec (skipNested (decoder.remaining + 1)) decoder := by
  unfold skip
  rw [exec_bind]
  rfl

theorem forward_skip : Forward skip := by
  intro decoder hbounds
  rw [exec_skip_eq]
  exact forward_skipNested _ decoder hbounds

theorem eats_skip : Eats skip := by
  intro decoder after value hbounds hexec
  rw [exec_skip_eq] at hexec
  exact eats_readByte.bind quiet_readByte.forward
    (fun initial => (forward_skipNested _).skipRest initial) decoder after value hbounds hexec

/-- The operations do the same on decoders with few bytes left. -/
def AgreeBelow {α : Type} (bound : Nat) (one other : DecodeM α) : Prop :=
  ∀ decoder, InBounds decoder → decoder.remaining < bound → exec one decoder = exec other decoder

theorem agreeBelow_rfl {bound : Nat} {operation : DecodeM α} :
    AgreeBelow bound operation operation := fun _ _ _ => rfl

section

variable {bound : Nat} {one other : DecodeM Unit}

theorem AgreeBelow.bind {β : Type} {first second : DecodeM α} {next later : α → DecodeM β}
    (hfirst : AgreeBelow bound first second) (hforward : Forward first)
    (hnext : ∀ value, AgreeBelow bound (next value) (later value)) :
    AgreeBelow bound (first >>= next) (second >>= later) := by
  intro decoder hbounds hless
  rw [exec_bind, exec_bind, ← hfirst decoder hbounds hless]
  rcases hexec : exec first decoder with ⟨result, after⟩
  cases result with
  | error failure => rfl
  | ok value =>
    obtain ⟨hafter, hle⟩ := remaining_le hforward hbounds hexec
    exact hnext value after hafter (hle.trans_lt hless)

variable (hagree : AgreeBelow bound one other)
include hagree

theorem AgreeBelow.repeatTimes (hforward : Forward one) (count : Nat) :
    AgreeBelow bound (repeatTimes one count) (repeatTimes other count) := by
  induction count with
  | zero => exact agreeBelow_rfl
  | succ count ih => exact hagree.bind hforward fun _ => ih

theorem AgreeBelow.untilBreak (hforward : Forward one) (rounds : Nat) :
    AgreeBelow bound (untilBreak one rounds) (untilBreak other rounds) := by
  induction rounds with
  | zero => exact agreeBelow_rfl
  | succ rounds ih =>
    refine agreeBelow_rfl.bind quiet_peekByte.forward fun byte => ?_
    split
    · exact agreeBelow_rfl
    · exact hagree.bind hforward fun _ => ih

theorem AgreeBelow.skipContents (hforward : Forward one) (initial : UInt8) :
    AgreeBelow bound (skipContents initial one) (skipContents initial other) := by
  intro decoder hbounds hless
  rw [exec_skipContents, exec_skipContents]
  split
  · exact hagree.untilBreak hforward _ decoder hbounds hless
  · exact agreeBelow_rfl.bind (quiet_readArgument initial).forward
      (fun count => hagree.repeatTimes hforward _) decoder hbounds hless

omit hagree

theorem AgreeBelow.ite {condition : Prop} [Decidable condition] {yes no yes' no' : DecodeM Unit}
    (hyes : AgreeBelow bound yes yes') (hno : AgreeBelow bound no no') :
    AgreeBelow bound (if condition then yes else no) (if condition then yes' else no') := by
  split
  · exact hyes
  · exact hno

include hagree

theorem AgreeBelow.skipRest (hforward : Forward one) (initial : UInt8) :
    AgreeBelow bound (skipRest initial one) (skipRest initial other) := by
  have hpairs := (hagree.bind hforward fun _ => hagree).skipContents (hforward.bind fun _ =>
    hforward) initial
  have hcontents := hagree.skipContents hforward initial
  exact agreeBelow_rfl.ite <| (hcontents.ite agreeBelow_rfl).ite <| hcontents.ite <| hpairs.ite <|
    agreeBelow_rfl.ite (agreeBelow_rfl.bind (quiet_readArgument initial).forward fun _ => hagree)

/-- The initial byte is gone when the nested items are read. -/
theorem AgreeBelow.level (hforward : Forward one) :
    AgreeBelow (bound + 1) (readByte >>= fun initial => Cbor.skipRest initial one)
      (readByte >>= fun initial => Cbor.skipRest initial other) := by
  intro decoder hbounds hless
  rw [exec_bind, exec_bind]
  rcases hexec : exec readByte decoder with ⟨result, after⟩
  cases result with
  | error failure => rfl
  | ok initial =>
    obtain ⟨hafter, hfewer⟩ := remaining_lt quiet_readByte.forward eats_readByte hbounds hexec
    exact hagree.skipRest hforward initial after hafter (by omega)

end

/-- A depth above the number of unread bytes is as good as any other. -/
theorem agreeBelow_skipNested (bound : Nat) {depth : Nat} (hdepth : bound ≤ depth) :
    AgreeBelow bound (skipNested depth) skip := by
  induction bound using Nat.strongRecOn generalizing depth with
  | _ bound ih =>
    intro decoder hbounds hless
    obtain ⟨depth, rfl⟩ := Nat.exists_eq_add_one_of_ne_zero (show depth ≠ 0 by omega)
    rw [skipNested_succ]
    have hinner : AgreeBelow decoder.remaining (skipNested depth)
        (skipNested decoder.remaining) := by
      intro inside hinside hfew
      have hone := ih decoder.remaining hless (show decoder.remaining ≤ depth by omega)
      have hother := ih decoder.remaining hless (le_refl decoder.remaining)
      rw [hone inside hinside hfew, hother inside hinside hfew]
    exact hinner.level (forward_skipNested depth) decoder hbounds (Nat.lt_succ_self _)

/-- **Skip without a depth.**  `skip` reads one level with itself for the nested items. -/
theorem exec_skip (hbounds : InBounds decoder) :
    exec skip decoder = exec (readByte >>= fun initial => skipRest initial skip) decoder := by
  rw [exec_skip_eq]
  exact (agreeBelow_skipNested _ le_rfl).level (forward_skipNested _) decoder hbounds
    (Nat.lt_succ_self _)

/-! ## The items that `skip` comes to -/

/-- A round of the contents of a container starts at a decoder. -/
def ContentsRound (initial : UInt8) (item : DecodeM Unit) (contents round : Decoder) : Prop :=
  if initial &&& 0x1f = aiIndef then
    (∃ done, Rounds (beforeBreak item) done contents round) ∧
      ∃ byte, round.data[round.pos]? = some byte ∧ byte ≠ breakByte
  else
    ∃ count first, exec (readArgument initial) contents = (.ok count, first) ∧
      ∃ done < count.toNat, Rounds item done first round

theorem panics_beforeBreak_iff : Panics (beforeBreak item) decoder ↔
    (∃ byte, decoder.data[decoder.pos]? = some byte ∧ byte ≠ breakByte) ∧ Panics item decoder := by
  rw [Panics, beforeBreak, exec_peekByte_bind]
  cases decoder.data[decoder.pos]? with
  | none => exact iff_of_false nofun (by simp)
  | some byte =>
    dsimp only
    by_cases hbreak : byte = breakByte
    · rw [if_pos hbreak]
      exact iff_of_false nofun (by simp [hbreak])
    · rw [if_neg hbreak]
      exact ⟨fun hpanics => ⟨⟨byte, rfl, hbreak⟩, hpanics⟩, And.right⟩

theorem panics_skipContents_iff (hforward : Forward item) (heats : Eats item) {initial : UInt8}
    (hbounds : InBounds decoder) :
    Panics (skipContents initial item) decoder ↔
      ∃ round, ContentsRound initial item decoder round ∧ Panics item round := by
  rw [Panics, exec_skipContents]
  unfold ContentsRound
  by_cases hindef : initial &&& 0x1f = aiIndef
  · simp only [if_pos hindef]
    refine (panics_untilBreak hforward heats hbounds (Nat.lt_succ_self _)).trans ?_
    constructor
    · rintro ⟨done, round, hrounds, hpanics⟩
      obtain ⟨hbyte, hpanics⟩ := panics_beforeBreak_iff.mp hpanics
      exact ⟨round, ⟨⟨done, hrounds⟩, hbyte⟩, hpanics⟩
    · rintro ⟨round, ⟨⟨done, hrounds⟩, hbyte⟩, hpanics⟩
      exact ⟨done, round, hrounds, panics_beforeBreak_iff.mpr ⟨hbyte, hpanics⟩⟩
  · simp only [if_neg hindef]
    refine (panics_bind.trans (or_iff_right ((quiet_readArgument initial).calm decoder hbounds))).trans ?_
    constructor
    · rintro ⟨count, first, hexec, hpanics⟩
      obtain ⟨done, hlt, round, hrounds, hpanics⟩ := panics_repeatTimes_iff.mp hpanics
      exact ⟨round, ⟨count, first, hexec, done, hlt, hrounds⟩, hpanics⟩
    · rintro ⟨round, ⟨count, first, hexec, done, hlt, hrounds⟩, hpanics⟩
      exact ⟨count, first, hexec, panics_repeatTimes_iff.mpr ⟨done, hlt, round, hrounds, hpanics⟩⟩

/-- An item directly inside the one at a decoder: an element of an array, a key or a value of a
map, a chunk of a string, or what a tag is on. -/
def Enters (decoder inside : Decoder) : Prop :=
  ∃ initial contents, exec readByte decoder = (.ok initial, contents) ∧
    (((initial >>> 5 = majorBytes ∨ initial >>> 5 = majorText) ∧ initial &&& 0x1f = aiIndef ∧
        ContentsRound initial skip contents inside) ∨
      (initial >>> 5 = majorArray ∧ ContentsRound initial skip contents inside) ∨
      (initial >>> 5 = majorMap ∧ ∃ key,
        ContentsRound initial (skip >>= fun _ => skip) contents key ∧
          (inside = key ∨ exec skip key = (.ok (), inside))) ∨
      (initial >>> 5 = majorTag ∧ ∃ number,
        exec (readArgument initial) contents = (.ok number, inside)))

/-- The items that `skip` comes to. -/
def Meets : Decoder → Decoder → Prop := Relation.ReflTransGen Enters

/-- The items that `skip` comes to are further on in the same slice. -/
theorem Enters.spec {inside : Decoder} (henters : Enters decoder inside)
    (hbounds : InBounds decoder) : InBounds inside ∧ inside.remaining < decoder.remaining := by
  obtain ⟨initial, contents, hread, hinside⟩ := henters
  obtain ⟨hcontents, hless⟩ := remaining_lt quiet_readByte.forward eats_readByte hbounds hread
  have hround : ∀ {item : DecodeM Unit} {round : Decoder}, Forward item →
      ContentsRound initial item contents round →
      InBounds round ∧ round.remaining ≤ contents.remaining := by
    intro item round hforward hround
    unfold ContentsRound at hround
    split at hround
    · obtain ⟨⟨done, hrounds⟩, -⟩ := hround
      exact hforward.beforeBreak.remaining_rounds hrounds hcontents
    · obtain ⟨count, first, hexec, done, -, hrounds⟩ := hround
      obtain ⟨hfirst, hle⟩ := remaining_le (quiet_readArgument initial).forward hcontents hexec
      obtain ⟨hlast, hle'⟩ := hforward.remaining_rounds hrounds hfirst
      exact ⟨hlast, hle'.trans hle⟩
  suffices hsuffices : InBounds inside ∧ inside.remaining ≤ contents.remaining from
    ⟨hsuffices.1, hsuffices.2.trans_lt hless⟩
  rcases hinside with ⟨-, -, hin⟩ | ⟨-, hin⟩ | ⟨-, key, hin, hkey⟩ | ⟨-, number, hexec⟩
  · exact hround forward_skip hin
  · exact hround forward_skip hin
  · obtain ⟨hin, hle⟩ := hround (forward_skip.bind fun _ => forward_skip) hin
    rcases hkey with rfl | hvalue
    · exact ⟨hin, hle⟩
    · obtain ⟨hvalue, hle'⟩ := remaining_le forward_skip hin hvalue
      exact ⟨hvalue, hle'.trans hle⟩
  · exact remaining_le (quiet_readArgument initial).forward hcontents hexec

theorem major_cases (initial : UInt8) : initial >>> 5 = majorUnsigned ∨
    initial >>> 5 = majorNegative ∨ initial >>> 5 = majorBytes ∨ initial >>> 5 = majorText ∨
    initial >>> 5 = majorArray ∨ initial >>> 5 = majorMap ∨ initial >>> 5 = majorTag ∨
    initial >>> 5 = majorSimple := by
  have hbound : (initial >>> 5).toNat < 8 := by
    have hlt := initial.toNat_lt
    rw [UInt8.toNat_shiftRight]
    have hfive : (5 : UInt8).toNat % 8 = 5 := rfl
    rw [hfive]
    omega
  generalize initial >>> 5 = major at hbound
  simp only [majorUnsigned, majorNegative, majorBytes, majorText, majorArray, majorMap, majorTag,
    majorSimple, ← UInt8.toNat_inj]
  simp only [UInt8.reduceToNat]
  omega

section

variable {decoder contents : Decoder} {initial : UInt8}

theorem overlong_iff (hread : exec readByte decoder = (.ok initial, contents)) {major : UInt8} :
    Overlong major decoder ↔ initial >>> 5 = major ∧ ∃ len final,
      exec (readArgument initial) contents = (.ok len, final) ∧ 2 ^ 64 ≤ final.pos + len.toNat := by
  have hexpect : exec (expectMajor major) decoder =
      if initial >>> 5 ≠ major then
        (.error (.error (.cborTypeMismatch major (initial >>> 5))), contents)
      else exec (readArgument initial) contents := by
    unfold expectMajor
    rw [exec_bind, hread]
    dsimp only
    split <;> rfl
  unfold Overlong
  rw [hexpect]
  by_cases hmajor : initial >>> 5 = major
  · rw [if_neg (not_not.mpr hmajor)]
    simp [hmajor]
  · rw [if_pos hmajor]
    refine iff_of_false ?_ fun hboth => hmajor hboth.1
    rintro ⟨len, final, hexec, -⟩
    cases hexec

/-- An item of indefinite length announces no length. -/
theorem exec_readArgument_indef (hindef : initial &&& 0x1f = aiIndef) (decoder : Decoder) :
    exec (readArgument initial) decoder =
      (.error (.error (.cborInvalidAdditionalInfo aiIndef)), decoder) := by
  unfold readArgument
  rw [hindef]
  rfl

theorem panics_skipString_iff (hcontents : InBounds contents) :
    Panics (skipString initial skip) contents ↔
      (∃ len final, exec (readArgument initial) contents = (.ok len, final) ∧
        2 ^ 64 ≤ final.pos + len.toNat) ∨
      ∃ inside, (initial &&& 0x1f = aiIndef ∧ ContentsRound initial skip contents inside) ∧
        Panics skip inside := by
  unfold skipString
  by_cases hindef : initial &&& 0x1f = aiIndef
  · rw [if_pos hindef, panics_skipContents_iff forward_skip eats_skip hcontents,
      exec_readArgument_indef hindef]
    simp [hindef]
  · rw [if_neg hindef, panics_bind, or_iff_right ((quiet_readArgument initial).calm contents hcontents)]
    simp only [hindef, false_and, exists_false, or_false]
    refine exists_congr fun len => exists_congr fun final => and_congr_right fun hexec => ?_
    obtain ⟨hfinal, -⟩ := remaining_le (quiet_readArgument initial).forward hcontents hexec
    exact panics_discard_iff.trans (panics_readExact_iff hfinal)

theorem panics_skipPairs_iff (hcontents : InBounds contents) :
    Panics (skipContents initial (skip >>= fun _ => skip)) contents ↔
      ∃ inside, (∃ key, ContentsRound initial (skip >>= fun _ => skip) contents key ∧
        (inside = key ∨ exec skip key = (.ok (), inside))) ∧ Panics skip inside := by
  have hforward : Forward (skip >>= fun _ => skip) := forward_skip.bind fun _ => forward_skip
  rw [panics_skipContents_iff hforward (eats_skip.bind forward_skip fun _ => forward_skip)
    hcontents]
  constructor
  · rintro ⟨key, hround, hpanics⟩
    rcases panics_bind.mp hpanics with hkey | ⟨⟨⟩, value, hexec, hvalue⟩
    · exact ⟨key, ⟨key, hround, .inl rfl⟩, hkey⟩
    · exact ⟨value, ⟨key, hround, .inr hexec⟩, hvalue⟩
  · rintro ⟨inside, ⟨key, hround, rfl | hexec⟩, hpanics⟩
    · exact ⟨inside, hround, panics_bind.mpr (.inl hpanics)⟩
    · exact ⟨key, hround, panics_bind.mpr (.inr ⟨(), inside, hexec, hpanics⟩)⟩

/-- What panics at an item: its own length, or an item directly inside. -/
theorem panics_skipRest_iff (hcontents : InBounds contents)
    (hread : exec readByte decoder = (.ok initial, contents)) :
    Panics (skipRest initial skip) contents ↔
      (Overlong majorBytes decoder ∨ Overlong majorText decoder) ∨
        ∃ inside, Enters decoder inside ∧ Panics skip inside := by
  have hscalar : ¬ Panics (readArgument initial >>= fun _ => (pure () : DecodeM Unit)) contents :=
    ((quiet_readArgument initial).bind fun _ => quiet_pure _).calm contents hcontents
  simp only [overlong_iff hread, Enters, exists_result_iff hread]
  unfold skipRest
  rcases major_cases initial with
    hmajor | hmajor | hmajor | hmajor | hmajor | hmajor | hmajor | hmajor
  all_goals
    simp +decide only [hmajor, majorUnsigned, majorNegative, majorBytes, majorText, majorArray,
      majorMap, majorTag, majorSimple, or_true, false_or, or_false, if_true, if_false, false_and,
      true_and, exists_false, iff_false]
  · exact hscalar
  · exact hscalar
  · exact panics_skipString_iff hcontents
  · exact panics_skipString_iff hcontents
  · exact panics_skipContents_iff forward_skip eats_skip hcontents
  · exact panics_skipPairs_iff hcontents
  · rw [panics_bind, or_iff_right ((quiet_readArgument initial).calm contents hcontents)]
    constructor
    · rintro ⟨number, inside, hexec, hpanics⟩
      exact ⟨inside, ⟨number, hexec⟩, hpanics⟩
    · rintro ⟨inside, ⟨number, hexec⟩, hpanics⟩
      exact ⟨number, inside, hexec, hpanics⟩
  · exact (quiet_skipSimple _).calm contents hcontents

end

variable {decoder : Decoder}

theorem panics_skip_step (hbounds : InBounds decoder) :
    Panics skip decoder ↔ (Overlong majorBytes decoder ∨ Overlong majorText decoder) ∨
      ∃ inside, Enters decoder inside ∧ Panics skip inside := by
  rw [Panics, exec_skip hbounds]
  refine (panics_bind.trans (or_iff_right (quiet_readByte.calm decoder hbounds))).trans ?_
  rcases hread : exec readByte decoder with ⟨result, contents⟩
  cases result with
  | error failure =>
    simp [Overlong, Enters, expectMajor, exec_bind, hread]
  | ok initial =>
    obtain ⟨hcontents, -⟩ := remaining_le quiet_readByte.forward hbounds hread
    rw [← panics_skipRest_iff hcontents hread]
    simp

/-- **Skipping panics exactly at an overlong string.** -/
theorem panics_skip_iff (hbounds : InBounds decoder) :
    Panics skip decoder ↔
      ∃ inside, Meets decoder inside ∧ (Overlong majorBytes inside ∨ Overlong majorText inside) := by
  constructor
  · -- items inside have fewer bytes left
    induction hmeasure : decoder.remaining using Nat.strongRecOn generalizing decoder with
    | _ measure ih =>
      subst hmeasure
      intro hpanics
      rcases (panics_skip_step hbounds).mp hpanics with hhere | ⟨inside, henters, hinside⟩
      · exact ⟨decoder, .refl, hhere⟩
      · obtain ⟨hin, hless⟩ := henters.spec hbounds
        obtain ⟨found, hmeets, hlong⟩ := ih inside.remaining hless hin rfl hinside
        exact ⟨found, .head henters hmeets, hlong⟩
  · rintro ⟨found, hmeets, hlong⟩
    induction hmeets using Relation.ReflTransGen.head_induction_on with
    | refl => exact (panics_skip_step hbounds).mpr (.inl hlong)
    | head henters _ ih =>
      obtain ⟨hin, -⟩ := henters.spec hbounds
      exact (panics_skip_step hbounds).mpr (.inr ⟨_, henters, ih hin⟩)

/-! ## Byte strings in chunks -/

/-- One chunk, without its bytes. -/
def skipChunk : DecodeM Unit := readBytes >>= fun _ => pure ()

theorem forward_readBytes : Forward readBytes := forward_string majorBytes

theorem forward_skipChunk : Forward skipChunk := forward_readBytes.bind fun _ => forward_pure _

theorem eats_expectMajor (major : UInt8) : Eats (expectMajor major) := by
  exact eats_readByte.bind quiet_readByte.forward fun initial =>
    (forward_fail _).ite (quiet_readArgument initial).forward

theorem eats_skipChunk : Eats skipChunk :=
  ((eats_expectMajor majorBytes).bind (quiet_expectMajor majorBytes).forward forward_readExact).bind
    forward_readBytes fun _ => forward_pure _

theorem panics_skipChunk_iff (hbounds : InBounds decoder) :
    Panics skipChunk decoder ↔ Overlong majorBytes decoder :=
  panics_discard_iff.trans (panics_string_iff hbounds)

/-- Where a string starts there is no stop code. -/
theorem Overlong.not_break (hlong : Overlong majorBytes decoder) :
    ∃ byte, decoder.data[decoder.pos]? = some byte ∧ byte ≠ breakByte := by
  obtain ⟨len, contents, hexec, -⟩ := hlong
  rw [expectMajor, exec_bind, exec_readByte] at hexec
  cases hbyte : decoder.data[decoder.pos]? with
  | none =>
    rw [hbyte] at hexec
    cases hexec
  | some byte =>
    refine ⟨byte, rfl, ?_⟩
    rintro rfl
    rw [hbyte] at hexec
    cases hexec

theorem panics_appendChunks_iff (rounds : Nat) (assembled : Bytes) (decoder : Decoder) :
    Panics (appendChunks rounds assembled) decoder ↔
      Panics (untilBreak skipChunk rounds) decoder := by
  induction rounds generalizing assembled decoder with
  | zero => exact iff_of_true rfl rfl
  | succ rounds ih =>
    show Panics (peekByte >>= fun byte => if byte = breakByte then advance >>= fun _ => pure assembled
      else readBytes >>= fun chunk => appendChunks rounds (assembled ++ chunk)) decoder ↔
        Panics (peekByte >>= fun byte => if byte = breakByte then advance
          else (readBytes >>= fun _ => pure ()) >>= fun _ => untilBreak skipChunk rounds) decoder
    rw [panics_bind, panics_bind]
    refine or_congr_right (exists_congr fun byte => exists_congr fun after =>
      and_congr_right fun _ => ?_)
    split
    · exact iff_of_false nofun nofun
    · rw [bind_assoc, panics_bind, panics_bind]
      refine or_congr_right (exists_congr fun chunk => exists_congr fun later =>
        and_congr_right fun _ => ?_)
      rw [pure_bind]
      exact ih _ _

theorem forward_appendChunks (rounds : Nat) (assembled : Bytes) :
    Forward (appendChunks rounds assembled) := by
  induction rounds generalizing assembled with
  | zero => exact fun _ hbounds => ⟨rfl, le_rfl, hbounds⟩
  | succ rounds ih =>
    refine forward_peekByte_bind fun byte decoder hbyte hbounds => ?_
    split
    · exact ⟨rfl, Nat.le_succ _, hbyte, hbounds.size⟩
    · exact forward_readBytes.bind (fun chunk => ih _) decoder hbounds

theorem forward_readBytesOwned : Forward readBytesOwned := by
  refine forward_peekByte_bind fun initial decoder hbyte hbounds => ?_
  dsimp only
  split
  · exact ⟨rfl, le_rfl, hbounds⟩
  · split
    · obtain ⟨hdata, hpos, hafter⟩ := forward_appendChunks _ []
        { decoder with pos := decoder.pos + 1 } ⟨hbyte, hbounds.size⟩
      exact ⟨hdata, (Nat.le_succ _).trans hpos, hafter⟩
    · exact forward_readBytes decoder hbounds

/-- A chunk of the byte string of indefinite length at `decoder` starts at `chunk`. -/
def ChunkOf (decoder chunk : Decoder) : Prop :=
  ∃ initial contents, exec readByte decoder = (.ok initial, contents) ∧
    initial >>> 5 = majorBytes ∧ initial &&& 0x1f = aiIndef ∧
    ∃ done, Rounds (beforeBreak skipChunk) done contents chunk

theorem panics_chunks_iff (hbounds : InBounds decoder) :
    Panics (appendChunks (decoder.remaining + 1) []) decoder ↔
      ∃ done chunk, Rounds (beforeBreak skipChunk) done decoder chunk ∧
        Overlong majorBytes chunk := by
  rw [panics_appendChunks_iff,
    panics_untilBreak forward_skipChunk eats_skipChunk hbounds (Nat.lt_succ_self _)]
  refine exists_congr fun done => exists_congr fun chunk => and_congr_right fun hrounds => ?_
  have hchunk := (forward_skipChunk.beforeBreak.remaining_rounds hrounds hbounds).1
  rw [panics_beforeBreak_iff, panics_skipChunk_iff hchunk]
  exact ⟨And.right, fun hlong => ⟨hlong.not_break, hlong⟩⟩

theorem panics_readBytesOwned_iff (hbounds : InBounds decoder) :
    Panics readBytesOwned decoder ↔
      ∃ string, (string = decoder ∨ ChunkOf decoder string) ∧ Overlong majorBytes string := by
  have hread := exec_readByte decoder
  rw [Panics, readBytesOwned, exec_peekByte_bind]
  cases hbyte : decoder.data[decoder.pos]? with
  | none =>
    rw [hbyte] at hread
    simp [Overlong, ChunkOf, expectMajor, exec_bind, hread]
  | some initial =>
    rw [hbyte] at hread
    have hcontents := (remaining_le quiet_readByte.forward hbounds hread).1
    simp only [or_and_right, exists_or, exists_eq_left, ChunkOf, exists_result_iff hread]
    by_cases hmajor : initial >>> 5 = majorBytes
    · rw [if_neg (not_not.mpr hmajor)]
      by_cases hindef : initial &&& 0x1f = aiIndef
      · -- the header announces no length, so that only a chunk can be overlong
        rw [if_pos hindef]
        refine (panics_chunks_iff hcontents).trans ?_
        rw [overlong_iff hread, exec_readArgument_indef hindef]
        constructor
        · rintro ⟨done, chunk, hrounds, hlong⟩
          exact .inr ⟨chunk, ⟨hmajor, hindef, done, hrounds⟩, hlong⟩
        · rintro (⟨-, len, final, hexec, -⟩ | ⟨chunk, ⟨-, -, done, hrounds⟩, hlong⟩)
          · cases hexec
          · exact ⟨done, chunk, hrounds, hlong⟩
      · rw [if_neg hindef]
        refine (panics_string_iff hbounds).trans (or_iff_left ?_).symm
        exact fun ⟨_, ⟨_, hother, _⟩, _⟩ => hindef hother
    · rw [if_pos hmajor]
      refine iff_of_false nofun ?_
      rintro (hlong | ⟨_, ⟨hother, -⟩, -⟩)
      · exact hmajor ((overlong_iff hread).mp hlong).1
      · exact hmajor hother

/-! ## Every operation -/

/-- The operations of the reader. -/
inductive Operation where
  | unsigned
  | integer
  | bytes
  | bytesOwned
  | text
  | array
  | map
  | tag
  | skip
  | rawValue
deriving DecidableEq, Repr

namespace Operation

/-- The operation without its value. -/
def run : Operation → DecodeM Unit
  | unsigned => readUnsigned >>= fun _ => pure ()
  | integer => readInteger >>= fun _ => pure ()
  | bytes => readBytes >>= fun _ => pure ()
  | bytesOwned => readBytesOwned >>= fun _ => pure ()
  | text => readText >>= fun _ => pure ()
  | array => readArray >>= fun _ => pure ()
  | map => readMap >>= fun _ => pure ()
  | tag => readTag >>= fun _ => pure ()
  | skip => Cbor.skip
  | rawValue => Cbor.rawValue >>= fun _ => pure ()

/-- The operation returns: an error, or a value with the position within the slice. -/
def Safe (operation : Operation) (decoder : Decoder) : Prop :=
  match exec operation.run decoder with
  | (.ok (), after) => decoder.pos ≤ after.pos ∧ after.pos ≤ decoder.data.length
  | (.error (.error _), _) => True
  | (.error .panicked, _) => False

/-- The strings of definite length that the operation comes to, by major type and position. -/
def ComesTo (operation : Operation) (decoder : Decoder) (major : UInt8) (string : Decoder) : Prop :=
  match operation with
  | bytes => major = majorBytes ∧ string = decoder
  | text => major = majorText ∧ string = decoder
  | bytesOwned =>
    major = majorBytes ∧ (string = decoder ∨ ChunkOf decoder string)
  | skip | rawValue => (major = majorBytes ∨ major = majorText) ∧ Meets decoder string
  | unsigned | integer | array | map | tag => False

end Operation

theorem forward_get : Forward (get : DecodeM Decoder) := fun _ hbounds => ⟨rfl, le_rfl, hbounds⟩

theorem forward_position : Forward position := forward_get.bind fun _ => forward_pure _

theorem quiet_slice (start stop : Nat) : Quiet (slice start stop) := by
  refine Quiet.bind ⟨forward_get, fun _ _ => nofun⟩ fun decoder => ?_
  split
  · exact quiet_fail _
  · exact quiet_pure _

theorem forward_rawValue : Forward rawValue :=
  forward_position.bind fun _ => forward_skip.bind fun _ => forward_position.bind fun _ =>
    (quiet_slice _ _).forward

theorem panics_rawValue_iff (hbounds : InBounds decoder) :
    Panics rawValue decoder ↔ Panics skip decoder := by
  show Panics (position >>= fun start => skip >>= fun _ => position >>= fun stop =>
    slice start stop) decoder ↔ _
  have hslice : ∀ start, Calm (position >>= fun stop => slice start stop) := fun start =>
    (Quiet.bind ⟨forward_position, fun _ _ => nofun⟩ fun stop => quiet_slice start stop).calm
  rw [panics_bind]
  constructor
  · rintro (hposition | ⟨start, after, hexec, hpanics⟩)
    · cases hposition
    · cases hexec
      rcases panics_bind.mp hpanics with hskip | ⟨⟨⟩, later, hskip, hslicing⟩
      · exact hskip
      · exact absurd hslicing (hslice _ later (remaining_le forward_skip hbounds hskip).1)
  · exact fun hskip => .inr ⟨_, decoder, rfl, panics_bind.mpr (.inl hskip)⟩

theorem forward_decodeText (raw : Bytes) : Forward (match String.fromUTF8? ⟨raw.toArray⟩ with
    | some text => (pure text : DecodeM String)
    | none => DecodeM.fail (.cborTypeMismatch majorText majorBytes)) := by
  split
  · exact forward_pure _
  · exact forward_fail _

theorem readText_eq : readText = (expectMajor majorText >>= readExact) >>= fun raw =>
    match String.fromUTF8? ⟨raw.toArray⟩ with
    | some text => (pure text : DecodeM String)
    | none => DecodeM.fail (.cborTypeMismatch majorText majorBytes) := by
  rw [bind_assoc]
  rfl

theorem forward_readText : Forward readText := by
  rw [readText_eq]
  exact (forward_string majorText).bind forward_decodeText

theorem panics_readText_iff (hbounds : InBounds decoder) :
    Panics readText decoder ↔ Overlong majorText decoder := by
  rw [readText_eq, panics_bind, panics_string_iff hbounds]
  refine or_iff_left ?_
  rintro ⟨raw, after, -, hpanics⟩
  split at hpanics
  · exact not_panics_pure _ hpanics
  · exact not_panics_fail _ hpanics

theorem quiet_readInteger : Quiet readInteger := by
  have hnumber : ∀ (major : UInt8) (read : UInt64 → Int64) (reason : LedgerError),
      Quiet (expectMajor major >>= fun value =>
        if value.toNat < 2 ^ 63 then pure (read value) else DecodeM.fail reason) := fun major _ _ =>
    (quiet_expectMajor major).bind fun _ => (quiet_pure _).ite (quiet_fail _)
  exact (quiet_peekByte.bind fun _ => quiet_pure _).bind fun _ =>
    (hnumber _ _ _).ite ((hnumber _ _ _).ite (quiet_fail _))

namespace Operation

theorem forward_run (operation : Operation) : Forward operation.run := by
  cases operation with
  | unsigned => exact (quiet_expectMajor majorUnsigned).forward.bind fun _ => forward_pure _
  | integer => exact quiet_readInteger.forward.bind fun _ => forward_pure _
  | bytes => exact forward_readBytes.bind fun _ => forward_pure _
  | bytesOwned => exact forward_readBytesOwned.bind fun _ => forward_pure _
  | text => exact forward_readText.bind fun _ => forward_pure _
  | array => exact (quiet_expectMajor majorArray).forward.bind fun _ => forward_pure _
  | map => exact (quiet_expectMajor majorMap).forward.bind fun _ => forward_pure _
  | tag => exact (quiet_expectMajor majorTag).forward.bind fun _ => forward_pure _
  | skip => exact forward_skip
  | rawValue => exact forward_rawValue.bind fun _ => forward_pure _

/-- An operation on a header alone comes to no string. -/
theorem panics_header_iff {header : DecodeM α} (hcalm : Calm header) (hbounds : InBounds decoder) :
    Panics (header >>= fun _ => (pure () : DecodeM Unit)) decoder ↔
      ∃ major string, False ∧ Overlong major string := by
  simp only [panics_discard_iff, false_and, exists_false, iff_false]
  exact hcalm decoder hbounds

theorem panics_run_iff (operation : Operation) (hbounds : InBounds decoder) :
    Panics operation.run decoder ↔
      ∃ major string, operation.ComesTo decoder major string ∧ Overlong major string := by
  have hskip : Panics Cbor.skip decoder ↔ ∃ major string,
      ((major = majorBytes ∨ major = majorText) ∧ Meets decoder string) ∧
        Overlong major string := by
    simp only [panics_skip_iff hbounds, or_and_right, exists_or, and_assoc, exists_and_left,
      exists_eq_left, and_or_left]
  cases operation with
  | unsigned => exact panics_header_iff (quiet_expectMajor majorUnsigned).calm hbounds
  | integer => exact panics_header_iff quiet_readInteger.calm hbounds
  | array => exact panics_header_iff (quiet_expectMajor majorArray).calm hbounds
  | map => exact panics_header_iff (quiet_expectMajor majorMap).calm hbounds
  | tag => exact panics_header_iff (quiet_expectMajor majorTag).calm hbounds
  | bytes =>
    refine (panics_discard_iff.trans (panics_string_iff hbounds)).trans ?_
    simp [ComesTo]
  | text =>
    refine (panics_discard_iff.trans (panics_readText_iff hbounds)).trans ?_
    simp [ComesTo]
  | bytesOwned =>
    refine (panics_discard_iff.trans (panics_readBytesOwned_iff hbounds)).trans ?_
    simp [ComesTo, and_assoc]
  | skip => exact hskip
  | rawValue => exact (panics_discard_iff.trans (panics_rawValue_iff hbounds)).trans hskip

/-- Everything that is not a panic is safe. -/
theorem safe_iff_not_panics (operation : Operation) (hbounds : InBounds decoder) :
    operation.Safe decoder ↔ ¬ Panics operation.run decoder := by
  unfold Safe Panics
  rcases hexec : exec operation.run decoder with ⟨result, after⟩
  obtain ⟨hdata, hpos, hafter⟩ := operation.forward_run.run hbounds hexec
  cases result with
  | ok value =>
    refine iff_of_true ⟨hpos, ?_⟩ nofun
    rw [← hdata]
    exact hafter.position
  | error failure =>
    cases failure with
    | error reason => exact iff_of_true trivial nofun
    | panicked => exact iff_of_false id fun hsafe => hsafe rfl

end Operation

/-- The decoders that a caller has after some operations on a slice.  After a panic there is
none. -/
inductive Reachable (data : Bytes) : Decoder → Prop
  | new : Reachable data (.new data)
  | step {decoder after : Decoder} {result : Except Failure Unit} (operation : Operation)
      (hreachable : Reachable data decoder) (hexec : exec operation.run decoder = (result, after))
      (hreturns : result ≠ .error .panicked) : Reachable data after

theorem Reachable.inBounds {data : Bytes} (hsize : data.length < 2 ^ 63)
    (hreachable : Reachable data decoder) : InBounds decoder := by
  induction hreachable with
  | new => exact ⟨Nat.zero_le _, hsize⟩
  | step operation _ hexec _ ih => exact (remaining_le operation.forward_run ih hexec).1

/-- **An operation crashes at an overlong string and nowhere else.** -/
theorem operation_safe_iff (data : Bytes) (hsize : data.length < 2 ^ 63) (decoder : Decoder)
    (hreachable : Reachable data decoder) (operation : Operation) :
    operation.Safe decoder ↔
      ∀ major string, operation.ComesTo decoder major string → ¬ Overlong major string := by
  have hbounds := hreachable.inBounds hsize
  rw [operation.safe_iff_not_panics hbounds, operation.panics_run_iff hbounds]
  simp

/-- `[h'0102', 3]`. -/
def smallArray : Bytes := [0x82, 0x42, 0x01, 0x02, 0x03]

theorem smallArray_skips : Operation.skip.Safe (.new smallArray) ∧ ∀ major string,
    Operation.skip.ComesTo (.new smallArray) major string → ¬ Overlong major string :=
  have hsafe : Operation.skip.Safe (.new smallArray) := show 0 ≤ 5 ∧ 5 ≤ 5 by decide
  ⟨hsafe, (operation_safe_iff smallArray (by decide) _ .new .skip).mp hsafe⟩

/-- A byte string of `2^64 - 1` bytes. -/
def hugeString : Bytes := [0x5b, 0xff, 0xff, 0xff, 0xff, 0xff, 0xff, 0xff, 0xff]

/-- The contents start at 9 and end, in machine words, at 8. -/
theorem hugeString_crashes : ¬ Operation.bytes.Safe (.new hugeString) ∧
    ¬ Operation.bytesOwned.Safe (.new hugeString) ∧ ¬ Operation.skip.Safe (.new hugeString) ∧
    ¬ Operation.rawValue.Safe (.new hugeString) :=
  ⟨id, id, id, id⟩

end Yggdrasil.Ledger.Cbor
