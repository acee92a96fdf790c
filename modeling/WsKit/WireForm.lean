import WsKit.Decompression
import WsKit.InflationLimit

/-!
# The wire form against its documentation

The documented wire form is one flags byte before the body. What is written has two, since the
frame and its payload are put into envelopes one after the other, and what is read is checked at
both levels against the flags of both. So a bit that only the other level gives a meaning is
accepted and ignored, and so is the kind of the frame that carries the wire form.
-/

namespace WsKit

open Base

/-- The documented wire form: bit 0 of the flags says that the body is the DEFLATE stream of the
frame's bytes and not the bytes themselves, bit 1 that the frame is text, and no frame grows by
more than the flags. -/
structure DocumentedForm (flate : Flate) (level : UInt8) (frame : Frame) (flags : UInt8)
    (body : Bytes) : Prop where
  known : KnownFlags flags
  compressed : ¬ flags &&& flagCompressed = 0 ↔ flate.deflate level frame.asBytes = some body
  identity : flags &&& flagCompressed = 0 → body = frame.asBytes
  text : ¬ flags &&& flagText = 0 ↔ frame.isText = true
  length_le : (flags :: body).length ≤ frame.len + 1
  shrinks : ¬ flags &&& flagCompressed = 0 → (flags :: body).length ≤ frame.len

namespace FrameCompressor

variable {flate : Flate} {overflowChecks : Bool} {compressor : FrameCompressor}

/-! ### What is written -/

/-- The outer flags of a frame. -/
def kindFlags (frame : Frame) : UInt8 := if frame.isText then 0 ||| flagText else 0

/-- The outer flags say whether a frame is text, and nothing else. -/
theorem kindFlags_spec (frame : Frame) :
    KnownFlags (kindFlags frame) ∧ kindFlags frame &&& flagCompressed = 0 ∧
      (¬ kindFlags frame &&& flagText = 0 ↔ frame.isText = true) := by
  cases frame with
  | text s =>
    have htext : KnownFlags (0 ||| flagText) ∧ (0 ||| flagText) &&& flagCompressed = 0 ∧
        ¬ (0 ||| flagText) &&& flagText = 0 := by decide
    exact ⟨htext.1, htext.2.1, iff_of_true htext.2.2 rfl⟩
  | binary b =>
    have hbinary : KnownFlags 0 ∧ 0 &&& flagCompressed = 0 ∧ 0 &&& flagText = 0 := by decide
    exact ⟨hbinary.1, hbinary.2.1, iff_of_false (not_not.2 hbinary.2.2) Bool.false_ne_true⟩

/-- The wire form of a frame is its outer flags and the envelope of its bytes. -/
theorem compressFrame_eq_ok_iff {frame wire : Frame} :
    compressor.compressFrame flate frame = .ok wire ↔
      ∃ enveloped, compressor.compress flate frame.asBytes = .ok enveloped ∧
        wire = .binary (kindFlags frame :: enveloped) := by
  rw [compressFrame, show (compressor.compress flate frame.asBytes >>= _) =
    (compressor.compress flate frame.asBytes).bind _ from rfl, Outcome.bind_eq_ok_iff]
  refine exists_congr fun enveloped => and_congr_right fun _ => ?_
  constructor
  · intro h
    exact (Except.ok.inj h).symm
  · rintro rfl
    rfl

/-- A payload that the encoder shortens is stored as its stream. -/
theorem compress_of_shorter {data stream : Bytes}
    (hmin : compressor.config.minSize.toNat ≤ data.length)
    (hdeflate : flate.deflate compressor.config.level data = some stream)
    (hshort : stream.length < data.length) :
    compressor.compress flate data = .ok (flagCompressed :: stream) := by
  rw [compress, compressBody]
  simp only [if_pos hmin, hdeflate, Outcome.orFail_some, if_pos hshort, bind, Except.bind, pure,
    Except.pure, Except.ok.injEq, List.cons.injEq, and_true]
  decide

/-- What is written has the documented form only where the bytes of the frame are the flag of
compressed data and their own DEFLATE stream, which then reads as their identity. -/
theorem compressFrame_documented_iff (flate : Flate) (compressor : FrameCompressor) (frame : Frame) :
    (∃ flags body, compressor.compressFrame flate frame = .ok (.binary (flags :: body)) ∧
        DocumentedForm flate compressor.config.level frame flags body) ↔
      compressor.config.minSize.toNat ≤ frame.len ∧
        ∃ stream, flate.deflate compressor.config.level frame.asBytes = some stream ∧
          frame.asBytes = flagCompressed :: stream := by
  obtain ⟨hknown, hcompressed, htext⟩ := kindFlags_spec frame
  rw [← Frame.length_asBytes]
  constructor
  · rintro ⟨flags, body, hwire, hform⟩
    obtain ⟨enveloped, hsend, heq⟩ := compressFrame_eq_ok_iff.1 hwire
    obtain ⟨rfl, rfl⟩ := List.cons.inj (Frame.binary.inj heq)
    -- the outer flags never name compressed data, so the envelope must be the bytes themselves
    have hbody := hform.identity hcompressed
    rcases compress_eq_ok hsend with rfl | ⟨stream, hmin, hdeflate, _, rfl⟩
    · have hlength := congrArg List.length hbody
      simp at hlength
    · exact ⟨hmin, stream, hdeflate, hbody.symm⟩
  · rintro ⟨hmin, stream, hdeflate, hbytes⟩
    have hshort : stream.length < frame.asBytes.length := by
      rw [hbytes, List.length_cons]
      exact Nat.lt_succ_self _
    have hsend := compress_of_shorter hmin hdeflate hshort
    refine ⟨_, _, compressFrame_eq_ok_iff.2 ⟨_, hsend, rfl⟩, hknown, ?_, fun _ => hbytes.symm, htext,
      ?_, fun h => (h hcompressed).elim⟩
    · refine iff_of_false (not_not.2 hcompressed) fun hother => ?_
      rw [hdeflate, Option.some.injEq] at hother
      have hlength := congrArg List.length hother
      simp at hlength
    · rw [← Frame.length_asBytes, ← hbytes, List.length_cons]

/-- A short text is written as two flag bytes and its own bytes. -/
theorem shortText_undocumented :
    ¬ ∀ (flate : Flate), flate.Lossless → ∀ (compressor : FrameCompressor) (frame : Frame),
      compressor.config.level ≤ 9 →
      ∃ flags body, compressor.compressFrame flate frame = .ok (.binary (flags :: body)) ∧
        DocumentedForm flate compressor.config.level frame flags body := by
  intro h
  obtain ⟨flags, body, hwire, hform⟩ :=
    h storedBlock storedBlock_lossless ⟨.default⟩ (.text ['h', 'i']) (by decide)
  have hwritten : Frame.binary [flagText, 0, 104, 105] = .binary (flags :: body) :=
    Except.ok.inj hwire
  obtain ⟨rfl, rfl⟩ := List.cons.inj (Frame.binary.inj hwritten)
  exact absurd (hform.identity (by decide)) (by decide)

/-! ### What is read -/

/-- A wire form that `compressFrame` can write: a binary frame whose outer flags name its kind only,
and whose inner flags name compression only. -/
def Emitted (wire : Frame) : Prop :=
  ∃ outer inner body, wire = .binary (outer :: inner :: body) ∧
    (outer = 0 ∨ outer = flagText) ∧ (inner = 0 ∨ inner = flagCompressed)

/-- Too short for two flag bytes, or with an undefined bit in one of them. -/
def Undefined (wire : Frame) : Prop :=
  wire.intoBytes.length < 2 ∨ ∃ outer inner body, wire.intoBytes = outer :: inner :: body ∧
    (¬ KnownFlags outer ∨ ¬ KnownFlags inner)

/-- The kind of a wire form and its two flag bytes, as far as there are any. -/
def header (wire : Frame) : Bool × Bytes := (wire.isText, wire.intoBytes.take 2)

/-- The sum of the cap and one is a `u64`, or is not computed. -/
def LimitFits (compressor : FrameCompressor) (inner : UInt8) : Prop :=
  inner &&& flagCompressed = 0 ∨ compressor.config.maxSize.toNat + 1 < 2 ^ 64

/-- The body holds no payload within the cap, or only one that is not the text that the outer flags
name. -/
def Undecodable (flate : Flate) (compressor : FrameCompressor) (outer inner : UInt8)
    (body : Bytes) : Prop :=
  ∀ payload, flate.Holds inner body payload →
    payload.length ≤ compressor.config.maxSize.toNat →
    ¬ outer &&& flagText = 0 ∧ ¬ ValidUtf8 payload

/-- Only what the encoder can write is returned as a frame, and all else is refused with an error. -/
structure Strict (flate : Flate) (overflowChecks : Bool) (compressor : FrameCompressor)
    (wire : Frame) : Prop where
  accepts : ∀ frame, compressor.decompressFrame flate overflowChecks wire = .ok frame → Emitted wire
  refuses : ¬ Emitted wire →
    ∃ error, compressor.decompressFrame flate overflowChecks wire = .error (.failed error)

/-- Frames of one header can be written or not together. -/
theorem emitted_iff_header {wire : Frame} :
    Emitted wire ↔ ∃ outer inner, header wire = (false, [outer, inner]) ∧
      (outer = 0 ∨ outer = flagText) ∧ (inner = 0 ∨ inner = flagCompressed) := by
  constructor
  · rintro ⟨outer, inner, body, rfl, hflags⟩
    exact ⟨outer, inner, rfl, hflags⟩
  · rintro ⟨outer, inner, hheader, hflags⟩
    obtain ⟨hkind, htake⟩ := Prod.mk.inj hheader
    cases wire with
    | text s => cases hkind
    | binary b =>
      refine ⟨outer, inner, b.drop 2, congrArg Frame.binary ?_, hflags⟩
      rw [← List.take_append_drop 2 b, show b.take 2 = [outer, inner] from htake]
      rfl

/-- Flags are undefined in all frames of one header. -/
theorem undefined_iff_header {wire : Frame} :
    Undefined wire ↔ (header wire).2.length < 2 ∨ ∃ outer inner, (header wire).2 = [outer, inner] ∧
      (¬ KnownFlags outer ∨ ¬ KnownFlags inner) := by
  have hlength : (header wire).2.length < 2 ↔ wire.intoBytes.length < 2 := by
    rw [header, List.length_take]
    omega
  refine or_congr hlength.symm (exists_congr fun outer => exists_congr fun inner => ?_)
  constructor
  · rintro ⟨body, hbytes, hflags⟩
    refine ⟨?_, hflags⟩
    rw [header, hbytes]
    rfl
  · rintro ⟨htake, hflags⟩
    refine ⟨wire.intoBytes.drop 2, ?_, hflags⟩
    rw [← List.take_append_drop 2 wire.intoBytes,
      show wire.intoBytes.take 2 = [outer, inner] from htake]
    rfl

/-- Otherwise both flag bytes are there, and defined. -/
theorem exists_flags_of_not_undefined {wire : Frame} (h : ¬ Undefined wire) :
    ∃ outer inner body, wire.intoBytes = outer :: inner :: body ∧ KnownFlags outer ∧
      KnownFlags inner := by
  obtain ⟨hlong, hflags⟩ := not_or.1 h
  match hbytes : wire.intoBytes with
  | [] => exact (hlong (by rw [hbytes]; decide)).elim
  | [_] => exact (hlong (by rw [hbytes]; exact Nat.lt_succ_self 1)).elim
  | outer :: inner :: body =>
    by_contra hnone
    refine hflags ⟨outer, inner, body, hbytes, ?_⟩
    by_contra hknown
    obtain ⟨houter, hinner⟩ := not_or.1 hknown
    exact hnone ⟨outer, inner, body, rfl, not_not.1 houter, not_not.1 hinner⟩

/-- Undefined flags are refused. -/
theorem decompressFrame_undefined {wire : Frame} (h : Undefined wire) :
    compressor.decompressFrame flate overflowChecks wire = .error (.failed .compression) := by
  by_contra hother
  obtain ⟨outer, inner, body, hbytes, houter, hinner⟩ := knownFlags_of_ne_compression hother
  obtain hshort | ⟨outer', inner', body', hbytes', hflags⟩ := h
  · rw [hbytes, List.length_cons, List.length_cons] at hshort
    omega
  · rw [hbytes] at hbytes'
    cases hbytes'
    exact hflags.elim (· houter) (· hinner)

/-- Below defined flags the payload that a body holds is returned, if it fits. -/
theorem decompress_eq_ok_iff_of_limitFits {inner : UInt8} (hlimit : compressor.LimitFits inner)
    (hknown : KnownFlags inner) {body payload : Bytes} :
    compressor.decompress flate overflowChecks (inner :: body) = .ok payload ↔
      flate.Holds inner body payload ∧ payload.length ≤ compressor.config.maxSize.toNat := by
  obtain hstored | hmax := hlimit
  · rw [decompress_stored hknown hstored, capped_eq_ok_iff, Flate.Holds, if_pos hstored, eq_comm]
  · exact decompress_eq_ok_iff hmax hknown

/-- A body that is not returned is refused with an error. -/
theorem decompress_cases_of_limitFits {inner : UInt8} (hlimit : compressor.LimitFits inner)
    (hknown : KnownFlags inner) (body : Bytes) :
    (∃ payload, compressor.decompress flate overflowChecks (inner :: body) = .ok payload) ∨
      ∃ error, compressor.decompress flate overflowChecks (inner :: body) =
        .error (.failed error) := by
  obtain hstored | hmax := hlimit
  · rw [decompress_stored hknown hstored]
    exact (capped_cases body).imp_right fun h => ⟨_, h⟩
  · exact (decompress_cases hmax (inner :: body)).imp_right (Or.rec (⟨_, ·⟩) (⟨_, ·⟩))

/-- A payload is refused exactly if it is to be text and is not UTF-8. -/
theorem restore_failed_iff {outer : UInt8} {payload : Bytes} :
    (∃ error, restore outer payload = .error (.failed error)) ↔
      ¬ outer &&& flagText = 0 ∧ ¬ ValidUtf8 payload := by
  rw [restore]
  by_cases htext : outer &&& flagText = 0
  · rw [if_pos htext]
    exact iff_of_false (fun h => by cases h.choose_spec) fun h => h.1 htext
  · rw [if_neg htext]
    simp only [Outcome.orFail_eq_error_iff, Option.map_eq_none_iff, Fault.failed.injEq,
      exists_and_left, exists_eq, and_true, htext, not_false_eq_true, true_and]
    constructor
    · rintro hnone ⟨s, rfl⟩
      rw [fromUtf8_utf8] at hnone
      cases hnone
    · intro hinvalid
      cases hdecoded : fromUtf8 payload with
      | none => rfl
      | some s => exact (hinvalid ⟨s, utf8_of_fromUtf8 hdecoded⟩).elim

/-- Below defined flags a frame is refused with an error exactly if its body does not decode and the
limit is computed without overflow. -/
theorem decompressFrame_failed_iff {wire : Frame} {outer inner : UInt8} {body : Bytes}
    (hbytes : wire.intoBytes = outer :: inner :: body) (houter : KnownFlags outer)
    (hinner : KnownFlags inner) :
    (∃ error, compressor.decompressFrame flate overflowChecks wire = .error (.failed error)) ↔
      compressor.LimitFits inner ∧ Undecodable flate compressor outer inner body := by
  rw [decompressFrame_known hbytes houter]
  by_cases hlimit : compressor.LimitFits inner
  · have hiff : ∀ payload,
        compressor.decompress flate overflowChecks (inner :: body) = .ok payload ↔
          flate.Holds inner body payload ∧ payload.length ≤ compressor.config.maxSize.toNat :=
      fun _ => decompress_eq_ok_iff_of_limitFits hlimit hinner
    have hcases : (∃ payload, compressor.decompress flate overflowChecks (inner :: body) =
        .ok payload) ∨ ∃ error, compressor.decompress flate overflowChecks (inner :: body) =
          .error (.failed error) := decompress_cases_of_limitFits hlimit hinner body
    obtain ⟨payload, hpayload⟩ | ⟨error, herror⟩ := hcases
    · have hheld := (hiff payload).1 hpayload
      rw [hpayload]
      refine restore_failed_iff.trans ⟨fun h => ⟨hlimit, fun other hother hfits => ?_⟩,
        fun h => h.2 payload hheld.1 hheld.2⟩
      have hsame := (hiff other).2 ⟨hother, hfits⟩
      rw [hpayload] at hsame
      cases hsame
      exact h
    · rw [herror]
      refine iff_of_true ⟨error, rfl⟩ ⟨hlimit, fun payload hholds hfits => ?_⟩
      have hpayload := (hiff payload).2 ⟨hholds, hfits⟩
      rw [herror] at hpayload
      cases hpayload
  · refine iff_of_false ?_ fun h => hlimit h.1
    obtain ⟨hdeflated, hmax⟩ := not_or.1 hlimit
    cases overflowChecks with
    | true =>
      rw [decompress_overflowing_checked hmax hinner hdeflated]
      exact fun h => by cases h.choose_spec
    | false =>
      rw [decompress_overflowing_wrapping hmax hinner hdeflated]
      exact fun h => (restore_failed_iff.1 h).2 ⟨[], rfl⟩

/-- A flag that was masked out of a byte and of its mask changes nothing. -/
theorem and_and_self (flags mask : UInt8) : (flags &&& mask) &&& mask = flags &&& mask := by
  rw [UInt8.and_assoc, UInt8.and_self]

/-- The flags of one level are defined. -/
theorem knownFlags_and {mask : UInt8} (h : KnownFlags mask) (flags : UInt8) :
    KnownFlags (flags &&& mask) := by
  have hmask : mask &&& ~~~flagKnown = 0 := h
  rw [KnownFlags, UInt8.and_assoc, hmask, UInt8.and_zero]

/-- Below known flags only the flag of compression is read. -/
theorem decompress_masked {inner : UInt8} (hknown : KnownFlags inner) (body : Bytes) :
    compressor.decompress flate overflowChecks (inner :: body) =
      compressor.decompress flate overflowChecks ((inner &&& flagCompressed) :: body) := by
  have hallowed : ¬ inner &&& ~~~flagKnown ≠ 0 := not_not.2 hknown
  have hmasked : ¬ (inner &&& flagCompressed) &&& ~~~flagKnown ≠ 0 :=
    not_not.2 (knownFlags_and (by decide) inner)
  simp only [decompress, if_neg hallowed, if_neg hmasked, and_and_self]

/-- All wire forms with defined flags are read as if they were a binary frame, without the flag that
is the other level's. -/
theorem decompressFrame_masked {wire : Frame} {outer inner : UInt8} {body : Bytes}
    (hbytes : wire.intoBytes = outer :: inner :: body) (houter : KnownFlags outer)
    (hinner : KnownFlags inner) :
    compressor.decompressFrame flate overflowChecks wire =
      compressor.decompressFrame flate overflowChecks
        (.binary ((outer &&& flagText) :: (inner &&& flagCompressed) :: body)) := by
  have hmasked : Frame.intoBytes (.binary ((outer &&& flagText) :: (inner &&& flagCompressed) :: body)) =
      (outer &&& flagText) :: (inner &&& flagCompressed) :: body := rfl
  have hrestore : restore (outer &&& flagText) = restore outer := by
    funext payload
    rw [restore, restore, and_and_self]
  rw [decompressFrame_known hbytes houter,
    decompressFrame_known hmasked (knownFlags_and (by decide) outer), hrestore,
    decompress_masked hinner]

/-- What the encoder can write, and undefined flags, are treated as they should. -/
theorem strict_of_header {wire : Frame} (h : Emitted wire ∨ Undefined wire) :
    Strict flate overflowChecks compressor wire := by
  obtain hemitted | hundefined := h
  · exact ⟨fun _ _ => hemitted, fun hnot => (hnot hemitted).elim⟩
  · refine ⟨fun frame hframe => ?_, fun _ => ⟨_, decompressFrame_undefined hundefined⟩⟩
    rw [decompressFrame_undefined hundefined] at hframe
    cases hframe

/-- Any other frame is, exactly if it is refused for its body. -/
theorem strict_iff_undecodable {wire : Frame} (hemitted : ¬ Emitted wire) {outer inner : UInt8}
    {body : Bytes} (hbytes : wire.intoBytes = outer :: inner :: body) (houter : KnownFlags outer)
    (hinner : KnownFlags inner) :
    Strict flate overflowChecks compressor wire ↔
      compressor.LimitFits inner ∧ Undecodable flate compressor outer inner body := by
  refine Iff.trans ⟨fun h => h.refuses hemitted, fun ⟨error, herror⟩ => ⟨fun frame hframe => ?_,
    fun _ => ⟨error, herror⟩⟩⟩ (decompressFrame_failed_iff hbytes houter hinner)
  rw [herror] at hframe
  cases hframe

/-- Defined flags are ASCII bytes, so a text can have them. -/
theorem exists_utf8_of_knownFlags {flags : UInt8} (h : KnownFlags flags) :
    ∃ c : Char, utf8 [c] = [flags] := by
  have hcases : flags = 0 ∨ flags = 1 ∨ flags = 2 ∨ flags = 3 := by
    obtain ⟨⟨v⟩⟩ := flags
    revert v
    decide +kernel
  obtain rfl | rfl | rfl | rfl := hcases
  · exact ⟨Char.ofNat 0, by decide⟩
  · exact ⟨Char.ofNat 1, by decide⟩
  · exact ⟨Char.ofNat 2, by decide⟩
  · exact ⟨Char.ofNat 3, by decide⟩

/-- There is a frame of either kind that has nothing but defined flags. -/
theorem exists_flags_only (isText : Bool) {outer inner : UInt8} (houter : KnownFlags outer)
    (hinner : KnownFlags inner) :
    ∃ wire : Frame, wire.isText = isText ∧ wire.intoBytes = [outer, inner] := by
  cases isText with
  | false => exact ⟨.binary [outer, inner], rfl, rfl⟩
  | true =>
    obtain ⟨c, hc⟩ := exists_utf8_of_knownFlags houter
    obtain ⟨d, hd⟩ := exists_utf8_of_knownFlags hinner
    refine ⟨.text [c, d], rfl, ?_⟩
    change utf8 ([c] ++ [d]) = _
    rw [utf8, List.flatMap_append]
    exact congrArg₂ _ hc hd

/-- Some frame of every other header is not treated as it should: the empty body, under the largest
cap. -/
theorem exists_not_strict (flate : Flate) (overflowChecks : Bool) {wire : Frame}
    (hemitted : ¬ Emitted wire) (hundefined : ¬ Undefined wire) :
    ∃ (compressor : FrameCompressor) (wire' : Frame), header wire' = header wire ∧
      ¬ Strict flate overflowChecks compressor wire' := by
  obtain ⟨outer, inner, body, hbytes, houter, hinner⟩ := exists_flags_of_not_undefined hundefined
  obtain ⟨wire', hkind, hflags⟩ := exists_flags_only wire.isText houter hinner
  have hheader : header wire' = header wire := by
    rw [header, header, hkind, hflags, hbytes]
    rfl
  refine ⟨⟨⟨6, 64, 18446744073709551615⟩⟩, wire', hheader, fun h => ?_⟩
  have hemitted' : ¬ Emitted wire' := by
    rwa [emitted_iff_header, hheader, ← emitted_iff_header]
  obtain ⟨hlimit, hundecodable⟩ :=
    (strict_iff_undecodable hemitted' hflags houter hinner).1 h
  obtain hstored | hmax := hlimit
  · refine (hundecodable [] ?_ (Nat.zero_le _)).2 ⟨[], rfl⟩
    rw [Flate.Holds, if_pos hstored]
  · exact absurd hmax (by decide)

/-- Every frame with the kind and the flag bytes of a wire form is treated as it should, returned only
if the encoder can write it and else refused with an error, exactly if the encoder can write these
or there are undefined flags. A frame with any other kind and flags is, exactly if its body does
not decode: then it was read as if it were a binary frame without the flag that is the other
level's. -/
theorem decompressFrame_accepts_emitted_iff (flate : Flate) (overflowChecks : Bool)
    (wire : Frame) :
    ((∀ (compressor : FrameCompressor) (wire' : Frame), header wire' = header wire →
        Strict flate overflowChecks compressor wire') ↔ Emitted wire ∨ Undefined wire) ∧
    (∀ compressor : FrameCompressor, Strict flate overflowChecks compressor wire ↔
      Emitted wire ∨ Undefined wire ∨ ∃ outer inner body, wire.intoBytes = outer :: inner :: body ∧
        compressor.LimitFits inner ∧ Undecodable flate compressor outer inner body) ∧
    ∀ (compressor : FrameCompressor) (outer inner : UInt8) (body : Bytes),
      wire.intoBytes = outer :: inner :: body → KnownFlags outer → KnownFlags inner →
      compressor.decompressFrame flate overflowChecks wire =
        compressor.decompressFrame flate overflowChecks
          (.binary ((outer &&& flagText) :: (inner &&& flagCompressed) :: body)) := by
  refine ⟨⟨fun h => ?_, fun h compressor wire' hheader => ?_⟩, fun compressor => ?_,
    fun compressor outer inner body => decompressFrame_masked⟩
  · by_contra hother
    obtain ⟨hemitted, hundefined⟩ := not_or.1 hother
    obtain ⟨compressor, wire', hheader, hnot⟩ :=
      exists_not_strict flate overflowChecks hemitted hundefined
    exact hnot (h compressor wire' hheader)
  · apply strict_of_header
    rwa [emitted_iff_header, undefined_iff_header, hheader, ← emitted_iff_header,
      ← undefined_iff_header]
  · by_cases hemitted : Emitted wire
    · exact iff_of_true (strict_of_header (.inl hemitted)) (.inl hemitted)
    · by_cases hundefined : Undefined wire
      · exact iff_of_true (strict_of_header (.inr hundefined)) (.inr (.inl hundefined))
      · obtain ⟨outer, inner, body, hbytes, houter, hinner⟩ :=
          exists_flags_of_not_undefined hundefined
        refine (strict_iff_undecodable hemitted hbytes houter hinner).trans ⟨fun h =>
          .inr (.inr ⟨outer, inner, body, hbytes, h⟩), fun h => ?_⟩
        obtain hother | hother | ⟨outer', inner', body', hbytes', h⟩ := h
        · exact (hemitted hother).elim
        · exact (hundefined hother).elim
        · rw [hbytes] at hbytes'
          cases hbytes'
          exact h

/-- An outer flag of compression is ignored. -/
theorem outerCompressed_accepted :
    ¬ ∀ (flate : Flate) (overflowChecks : Bool) (compressor : FrameCompressor) (wire : Frame),
      Strict flate overflowChecks compressor wire := by
  intro h
  obtain ⟨outer, inner, body, heq, houter, _⟩ := (h storedBlock true ⟨.default⟩
    (.binary [flagCompressed, 0, 104, 105])).accepts (.binary [104, 105]) (by decide)
  obtain ⟨rfl, _⟩ := List.cons.inj (Frame.binary.inj heq)
  exact absurd houter (by decide)

end FrameCompressor

end WsKit
