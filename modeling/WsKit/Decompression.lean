import WsKit.Compression
import WsKit.Base.Chunks

/-!
# Decompressing arbitrary wire data

What `decompressFrame` makes of any bytes and of any decoder, which may end, fail or go on
forever. The limit lies one byte past the cap, so the bytes taken from the decoder tell an output
that fits from one that does not, whatever the decoder would have answered later.
-/

namespace WsKit

open Base

/-- All bits that are set are defined. -/
def KnownFlags (flags : UInt8) : Prop := flags &&& ~~~flagKnown = 0

instance (flags : UInt8) : Decidable (KnownFlags flags) := inferInstanceAs (Decidable (_ = _))

namespace Flate

/-- The complete payload of a body: the body itself, or all that the decoder yields before it ends
cleanly. -/
def Holds (flate : Flate) (flags : UInt8) (body payload : Bytes) : Prop :=
  if flags &&& flagCompressed = 0 then payload = body else (flate.inflate body).Yields 0 payload

/-- The body is longer than `n`, or the decoder yields more than `n` bytes before it ends or
fails. -/
def Exceeds (flate : Flate) (flags : UInt8) (body : Bytes) (n : ℕ) : Prop :=
  if flags &&& flagCompressed = 0 then n < body.length
  else ∀ i ≤ n, ∃ b, flate.inflate body i = .byte b

end Flate

namespace FrameCompressor

/-- A frame of the kind that the outer flags name, around a payload. -/
def Restores (flags : UInt8) (payload : Bytes) (frame : Frame) : Prop :=
  if flags &&& flagText = 0 then frame = .binary payload else ∃ s, utf8 s = payload ∧ frame = .text s

variable {flate : Flate} {overflowChecks : Bool} {compressor : FrameCompressor}

/-! ### The inner envelope -/

/-- Unknown flags are refused. -/
theorem decompress_unknown {flags : UInt8} (h : ¬ KnownFlags flags) (body : Bytes) :
    compressor.decompress flate overflowChecks (flags :: body) = .error (.failed .compression) := by
  have hunknown : flags &&& ~~~flagKnown ≠ 0 := h
  rw [decompress, if_pos hunknown]

/-- Without the compression flag the body is the payload, subject to the cap. -/
theorem decompress_stored {flags : UInt8} (hknown : KnownFlags flags)
    (hstored : flags &&& flagCompressed = 0) (body : Bytes) :
    compressor.decompress flate overflowChecks (flags :: body) = compressor.capped body := by
  have hallowed : ¬ flags &&& ~~~flagKnown ≠ 0 := not_not.2 hknown
  rw [decompress, if_neg hallowed, if_pos hstored]
  rfl

/-- With the flag the decoder is read one byte past the cap, and what it gave is subject to the
cap. -/
theorem decompress_deflated (hmax : compressor.config.maxSize.toNat + 1 < 2 ^ 64) {flags : UInt8}
    (hknown : KnownFlags flags) (hdeflated : ¬ flags &&& flagCompressed = 0) (body : Bytes) :
    compressor.decompress flate overflowChecks (flags :: body) =
      (Outcome.orFail .compression
        ((flate.inflate body).readToEnd 0 (compressor.config.maxSize.toNat + 1))).bind
          compressor.capped := by
  have hfits : compressor.config.maxSize.toNat + UInt64.toNat 1 < 2 ^ 64 := hmax
  obtain ⟨hadd, hvalue⟩ := Outcome.addU64_of_lt (ε := WsError) overflowChecks hfits
  have hallowed : ¬ flags &&& ~~~flagKnown ≠ 0 := not_not.2 hknown
  rw [decompress, if_neg hallowed, if_neg hdeflated, hadd]
  simp only [bind, Except.bind, hvalue]
  rfl

/-- A payload under the cap, exactly when it is no longer. -/
theorem capped_eq_ok_iff {payload out : Bytes} :
    compressor.capped payload = .ok out ↔
      payload = out ∧ out.length ≤ compressor.config.maxSize.toNat := by
  rw [capped]
  split
  · rename_i hlong
    constructor
    · intro h
      cases h
    · rintro ⟨rfl, hle⟩
      omega
  · rename_i hfits
    rw [Except.ok.injEq]
    constructor
    · rintro rfl
      exact ⟨rfl, not_lt.1 hfits⟩
    · exact And.left

/-- A payload is too large, exactly when it is longer than the cap. -/
theorem capped_eq_tooLarge_iff {payload : Bytes} :
    compressor.capped payload = .error (.failed .payloadTooLarge) ↔
      compressor.config.maxSize.toNat < payload.length := by
  rw [capped]
  split <;> simp_all

/-- The cap gives no other error. -/
theorem capped_cases (payload : Bytes) :
    (∃ out, compressor.capped payload = .ok out) ∨
      compressor.capped payload = .error (.failed .payloadTooLarge) := by
  rw [capped]
  split
  · exact .inr rfl
  · exact .inl ⟨payload, rfl⟩

/-- The complete payload of a body with known flags is returned, when it fits. -/
theorem decompress_eq_ok_iff (hmax : compressor.config.maxSize.toNat + 1 < 2 ^ 64) {flags : UInt8}
    (hknown : KnownFlags flags) {body payload : Bytes} :
    compressor.decompress flate overflowChecks (flags :: body) = .ok payload ↔
      flate.Holds flags body payload ∧ payload.length ≤ compressor.config.maxSize.toNat := by
  rw [Flate.Holds]
  by_cases hstored : flags &&& flagCompressed = 0
  · rw [decompress_stored hknown hstored, capped_eq_ok_iff, if_pos hstored, eq_comm]
  · rw [decompress_deflated hmax hknown hstored, if_neg hstored, Outcome.bind_eq_ok_iff]
    simp only [Outcome.orFail_eq_ok_iff, capped_eq_ok_iff]
    constructor
    · rintro ⟨out, hread, rfl, hfits⟩
      rcases Reader.readToEnd_eq_some_iff.1 hread with ⟨hfull, -⟩ | ⟨-, hyields⟩
      · omega
      · exact ⟨hyields, hfits⟩
    · rintro ⟨hyields, hfits⟩
      exact ⟨payload, Reader.readToEnd_eq_some_iff.2 (.inr ⟨by omega, hyields⟩), rfl, hfits⟩

/-- A body with known flags is too large exactly when it holds, or its decoder gives, more than the
cap. -/
theorem decompress_eq_tooLarge_iff (hmax : compressor.config.maxSize.toNat + 1 < 2 ^ 64)
    {flags : UInt8} (hknown : KnownFlags flags) {body : Bytes} :
    compressor.decompress flate overflowChecks (flags :: body) =
        .error (.failed .payloadTooLarge) ↔
      flate.Exceeds flags body compressor.config.maxSize.toNat := by
  rw [Flate.Exceeds]
  by_cases hstored : flags &&& flagCompressed = 0
  · rw [decompress_stored hknown hstored, capped_eq_tooLarge_iff, if_pos hstored]
  · rw [decompress_deflated hmax hknown hstored, if_neg hstored, Outcome.bind_eq_error_iff]
    have hcut := Reader.exists_begins_iff (flate.inflate body) 0
      (compressor.config.maxSize.toNat + 1)
    simp only [Nat.zero_add, Nat.lt_succ_iff] at hcut
    rw [← hcut]
    simp only [Outcome.orFail_eq_ok_iff, Outcome.orFail_eq_error_iff, capped_eq_tooLarge_iff]
    constructor
    · rintro (⟨-, hfault⟩ | ⟨out, hread, hlong⟩)
      · cases hfault
      · rcases Reader.readToEnd_eq_some_iff.1 hread with ⟨hfull, hbegins⟩ | ⟨hshort, -⟩
        · exact ⟨out, hfull, hbegins⟩
        · omega
    · rintro ⟨out, hfull, hbegins⟩
      exact .inr ⟨out, Reader.readToEnd_eq_some_iff.2 (.inl ⟨hfull, hbegins⟩), by omega⟩

/-- Decompression returns a payload or one of two errors, and does not panic. -/
theorem decompress_cases (hmax : compressor.config.maxSize.toNat + 1 < 2 ^ 64) (enveloped : Bytes) :
    (∃ payload, compressor.decompress flate overflowChecks enveloped = .ok payload) ∨
      compressor.decompress flate overflowChecks enveloped = .error (.failed .payloadTooLarge) ∨
      compressor.decompress flate overflowChecks enveloped = .error (.failed .compression) := by
  cases enveloped with
  | nil => exact .inr (.inr rfl)
  | cons flags body =>
    by_cases hknown : KnownFlags flags
    · by_cases hstored : flags &&& flagCompressed = 0
      · rw [decompress_stored hknown hstored]
        exact (capped_cases body).imp_right .inl
      · rw [decompress_deflated hmax hknown hstored]
        cases (flate.inflate body).readToEnd 0 (compressor.config.maxSize.toNat + 1) with
        | none => exact .inr (.inr rfl)
        | some out => exact (capped_cases out).imp_right .inl
    · exact .inr (.inr (decompress_unknown hknown body))

/-- Only what the decoder answers within the cap decides the result. -/
theorem decompress_congr {flate' : Flate}
    (hmax : compressor.config.maxSize.toNat + 1 < 2 ^ 64)
    (h : ∀ body i, i ≤ compressor.config.maxSize.toNat →
      flate.inflate body i = flate'.inflate body i) (enveloped : Bytes) :
    compressor.decompress flate overflowChecks enveloped =
      compressor.decompress flate' overflowChecks enveloped := by
  cases enveloped with
  | nil => rfl
  | cons flags body =>
    by_cases hknown : KnownFlags flags
    · by_cases hstored : flags &&& flagCompressed = 0
      · rw [decompress_stored hknown hstored, decompress_stored hknown hstored]
      · have hread : (flate.inflate body).readToEnd 0 (compressor.config.maxSize.toNat + 1) =
            (flate'.inflate body).readToEnd 0 (compressor.config.maxSize.toNat + 1) :=
          Reader.readToEnd_congr fun i hi => h body (0 + i) (by omega)
        rw [decompress_deflated hmax hknown hstored, decompress_deflated hmax hknown hstored, hread]
    · rw [decompress_unknown hknown, decompress_unknown hknown]

/-- A decoder that answers in chunks is asked for one byte past the cap at most. -/
theorem decompress_chunks (hmax : compressor.config.maxSize.toNat + 1 < 2 ^ 64) {flags : UInt8}
    (hknown : KnownFlags flags) (hdeflated : ¬ flags &&& flagCompressed = 0) {body : Bytes}
    {chunks : Chunks} (hchunks : flate.inflate body = chunks.reader) :
    ∃ taken out, chunks.readToEnd 0 (compressor.config.maxSize.toNat + 1) = (taken, out) ∧
      taken ≤ compressor.config.maxSize.toNat + 1 ∧
      compressor.decompress flate overflowChecks (flags :: body) =
        (Outcome.orFail .compression out).bind compressor.capped := by
  refine ⟨_, _, rfl, chunks.readToEnd_taken_le 0 _, ?_⟩
  rw [decompress_deflated hmax hknown hdeflated, hchunks, Chunks.readToEnd_reader]

/-! ### The outer envelope -/

/-- The frame of the kind that the outer flags name. -/
def restore (flags : UInt8) (payload : Bytes) : Outcome WsError Frame :=
  if flags &&& flagText = 0 then .ok (.binary payload)
  else Outcome.orFail .compression ((fromUtf8 payload).map Frame.text)

/-- Unknown outer flags are refused. -/
theorem decompressFrame_unknown {frame : Frame} {outer : UInt8} {enveloped : Bytes}
    (hbytes : frame.intoBytes = outer :: enveloped) (h : ¬ KnownFlags outer) :
    compressor.decompressFrame flate overflowChecks frame = .error (.failed .compression) := by
  have hunknown : outer &&& ~~~flagKnown ≠ 0 := h
  simp only [decompressFrame, hbytes, if_pos hunknown]

/-- Under known outer flags the inner envelope is decompressed and the frame restored. -/
theorem decompressFrame_known {frame : Frame} {outer : UInt8} {enveloped : Bytes}
    (hbytes : frame.intoBytes = outer :: enveloped) (hknown : KnownFlags outer) :
    compressor.decompressFrame flate overflowChecks frame =
      (compressor.decompress flate overflowChecks enveloped).bind (restore outer) := by
  have hallowed : ¬ outer &&& ~~~flagKnown ≠ 0 := not_not.2 hknown
  simp only [decompressFrame, hbytes, if_neg hallowed, bind]
  congr 1
  funext payload
  rw [restore]
  by_cases htext : outer &&& flagText = 0
  · rw [if_neg (not_not.2 htext), if_pos htext]
    rfl
  · rw [if_pos htext, if_neg htext]
    cases fromUtf8 payload <;> rfl

/-- A text frame is restored exactly from the bytes of its text. -/
theorem restore_eq_ok_iff {flags : UInt8} {payload : Bytes} {frame : Frame} :
    restore flags payload = .ok frame ↔ Restores flags payload frame := by
  rw [restore, Restores]
  split
  · rw [Except.ok.injEq, eq_comm]
  · rw [Outcome.orFail_eq_ok_iff, Option.map_eq_some_iff]
    constructor
    · rintro ⟨s, hs, rfl⟩
      exact ⟨s, utf8_of_fromUtf8 hs, rfl⟩
    · rintro ⟨s, rfl, rfl⟩
      exact ⟨s, fromUtf8_utf8 s, rfl⟩

/-- Restoring a frame fails only as invalid compression. -/
theorem restore_cases (flags : UInt8) (payload : Bytes) :
    (∃ frame, restore flags payload = .ok frame) ∨
      restore flags payload = .error (.failed .compression) := by
  rw [restore]
  split
  · exact .inl ⟨_, rfl⟩
  · cases fromUtf8 payload with
    | none => exact .inr rfl
    | some s => exact .inl ⟨.text s, rfl⟩

/-- What is not refused as invalid compression has known flags at both levels. -/
theorem knownFlags_of_ne_compression {wire : Frame}
    (h : compressor.decompressFrame flate overflowChecks wire ≠ .error (.failed .compression)) :
    ∃ outer inner body, wire.intoBytes = outer :: inner :: body ∧
      KnownFlags outer ∧ KnownFlags inner := by
  cases hbytes : wire.intoBytes with
  | nil => exact (h (by simp only [decompressFrame, hbytes])).elim
  | cons outer enveloped =>
    by_cases houter : KnownFlags outer
    · rw [decompressFrame_known hbytes houter] at h
      cases enveloped with
      | nil => exact (h rfl).elim
      | cons inner body =>
        by_cases hinner : KnownFlags inner
        · exact ⟨outer, inner, body, rfl, houter, hinner⟩
        · rw [decompress_unknown hinner] at h
          exact (h rfl).elim
    · exact (h (decompressFrame_unknown hbytes houter)).elim

/-- A frame that is returned was restored from a payload below known flags. -/
theorem exists_payload_of_ok {wire frame : Frame}
    (h : compressor.decompressFrame flate overflowChecks wire = .ok frame) :
    ∃ outer inner body payload, wire.intoBytes = outer :: inner :: body ∧
      KnownFlags outer ∧ KnownFlags inner ∧
      compressor.decompress flate overflowChecks (inner :: body) = .ok payload ∧
      Restores outer payload frame := by
  have hne : compressor.decompressFrame flate overflowChecks wire ≠
      .error (.failed .compression) := by
    rw [h]
    exact fun hfault => by cases hfault
  obtain ⟨outer, inner, body, hbytes, houter, hinner⟩ := knownFlags_of_ne_compression hne
  rw [decompressFrame_known hbytes houter, Outcome.bind_eq_ok_iff] at h
  obtain ⟨payload, hpayload, hframe⟩ := h
  exact ⟨outer, inner, body, payload, hbytes, houter, hinner, hpayload, restore_eq_ok_iff.1 hframe⟩

/-- A frame is returned exactly for known flags around a complete payload that fits and has its
kind. -/
theorem decompressFrame_eq_ok_iff (hmax : compressor.config.maxSize.toNat + 1 < 2 ^ 64)
    {wire frame : Frame} :
    compressor.decompressFrame flate overflowChecks wire = .ok frame ↔
      ∃ outer inner body payload, wire.intoBytes = outer :: inner :: body ∧
        KnownFlags outer ∧ KnownFlags inner ∧ flate.Holds inner body payload ∧
        payload.length ≤ compressor.config.maxSize.toNat ∧ Restores outer payload frame := by
  constructor
  · intro h
    obtain ⟨outer, inner, body, payload, hbytes, houter, hinner, hpayload, hframe⟩ :=
      exists_payload_of_ok h
    obtain ⟨hholds, hfits⟩ := (decompress_eq_ok_iff hmax hinner).1 hpayload
    exact ⟨outer, inner, body, payload, hbytes, houter, hinner, hholds, hfits, hframe⟩
  · rintro ⟨outer, inner, body, payload, hbytes, houter, hinner, hholds, hfits, hframe⟩
    rw [decompressFrame_known hbytes houter, Outcome.bind_eq_ok_iff]
    exact ⟨payload, (decompress_eq_ok_iff hmax hinner).2 ⟨hholds, hfits⟩,
      restore_eq_ok_iff.2 hframe⟩

/-- The payload is refused as too large exactly under known flags, when there is more than the
cap. -/
theorem decompressFrame_eq_tooLarge_iff (hmax : compressor.config.maxSize.toNat + 1 < 2 ^ 64)
    {wire : Frame} :
    compressor.decompressFrame flate overflowChecks wire = .error (.failed .payloadTooLarge) ↔
      ∃ outer inner body, wire.intoBytes = outer :: inner :: body ∧
        KnownFlags outer ∧ KnownFlags inner ∧
        flate.Exceeds inner body compressor.config.maxSize.toNat := by
  constructor
  · intro h
    have hne : compressor.decompressFrame flate overflowChecks wire ≠
        .error (.failed .compression) := by
      rw [h]
      exact fun hfault => by cases hfault
    obtain ⟨outer, inner, body, hbytes, houter, hinner⟩ := knownFlags_of_ne_compression hne
    rw [decompressFrame_known hbytes houter, Outcome.bind_eq_error_iff] at h
    rcases h with hlong | ⟨payload, -, hkind⟩
    · exact ⟨outer, inner, body, hbytes, houter, hinner,
        (decompress_eq_tooLarge_iff hmax hinner).1 hlong⟩
    · rcases restore_cases outer payload with ⟨frame, hframe⟩ | hinvalid
      · rw [hframe] at hkind
        cases hkind
      · rw [hinvalid] at hkind
        cases hkind
  · rintro ⟨outer, inner, body, hbytes, houter, hinner, hlong⟩
    rw [decompressFrame_known hbytes houter, Outcome.bind_eq_error_iff]
    exact .inl ((decompress_eq_tooLarge_iff hmax hinner).2 hlong)

/-- A frame, or one of two errors, comes back: nothing panics. -/
theorem decompressFrame_cases (hmax : compressor.config.maxSize.toNat + 1 < 2 ^ 64)
    (wire : Frame) :
    (∃ frame, compressor.decompressFrame flate overflowChecks wire = .ok frame) ∨
      compressor.decompressFrame flate overflowChecks wire = .error (.failed .payloadTooLarge) ∨
      compressor.decompressFrame flate overflowChecks wire = .error (.failed .compression) := by
  by_cases h : compressor.decompressFrame flate overflowChecks wire = .error (.failed .compression)
  · exact .inr (.inr h)
  · obtain ⟨outer, inner, body, hbytes, houter, -⟩ := knownFlags_of_ne_compression h
    rw [decompressFrame_known hbytes houter]
    rcases decompress_cases hmax (inner :: body) with ⟨payload, hpayload⟩ | hlong | hinvalid
    · rw [hpayload]
      exact (restore_cases outer payload).imp_right .inr
    · rw [hlong]
      exact .inr (.inl rfl)
    · rw [hinvalid]
      exact .inr (.inr rfl)

/-- What the decoder would answer beyond the cap changes nothing. -/
theorem decompressFrame_congr {flate' : Flate}
    (hmax : compressor.config.maxSize.toNat + 1 < 2 ^ 64)
    (h : ∀ body i, i ≤ compressor.config.maxSize.toNat →
      flate.inflate body i = flate'.inflate body i) (wire : Frame) :
    compressor.decompressFrame flate overflowChecks wire =
      compressor.decompressFrame flate' overflowChecks wire := by
  cases hbytes : wire.intoBytes with
  | nil => simp only [decompressFrame, hbytes]
  | cons outer enveloped =>
    by_cases houter : KnownFlags outer
    · rw [decompressFrame_known hbytes houter, decompressFrame_known hbytes houter,
        decompress_congr hmax h]
    · rw [decompressFrame_unknown hbytes houter, decompressFrame_unknown hbytes houter]

/-- For every wire form and every decoder: a frame is returned exactly for known flags at both
levels around a complete payload within the cap, which is the text of the frame or its bytes;
the payload is refused as too large exactly under known flags when the body, or the decoder
before it ends or fails, gives more than the cap; all else is refused as invalid compression.
What the decoder would answer beyond the cap changes nothing, and one that answers in chunks is
asked for one byte past the cap at most. -/
theorem decompressFrame_bounded (flate : Flate) (overflowChecks : Bool)
    (compressor : FrameCompressor) (hmax : compressor.config.maxSize.toNat + 1 < 2 ^ 64)
    (wire : Frame) :
    (∀ frame, compressor.decompressFrame flate overflowChecks wire = .ok frame ↔
      ∃ outer inner body payload, wire.intoBytes = outer :: inner :: body ∧
        KnownFlags outer ∧ KnownFlags inner ∧ flate.Holds inner body payload ∧
        payload.length ≤ compressor.config.maxSize.toNat ∧ Restores outer payload frame) ∧
    (compressor.decompressFrame flate overflowChecks wire = .error (.failed .payloadTooLarge) ↔
      ∃ outer inner body, wire.intoBytes = outer :: inner :: body ∧
        KnownFlags outer ∧ KnownFlags inner ∧
        flate.Exceeds inner body compressor.config.maxSize.toNat) ∧
    ((∃ frame, compressor.decompressFrame flate overflowChecks wire = .ok frame) ∨
      compressor.decompressFrame flate overflowChecks wire = .error (.failed .payloadTooLarge) ∨
      compressor.decompressFrame flate overflowChecks wire = .error (.failed .compression)) ∧
    (∀ flate' : Flate,
      (∀ body i, i ≤ compressor.config.maxSize.toNat →
        flate.inflate body i = flate'.inflate body i) →
      compressor.decompressFrame flate overflowChecks wire =
        compressor.decompressFrame flate' overflowChecks wire) ∧
    ∀ (inner : UInt8) (body : Bytes) (chunks : Chunks), KnownFlags inner →
      ¬ inner &&& flagCompressed = 0 → flate.inflate body = chunks.reader →
      ∃ taken out, chunks.readToEnd 0 (compressor.config.maxSize.toNat + 1) = (taken, out) ∧
        taken ≤ compressor.config.maxSize.toNat + 1 ∧
        compressor.decompress flate overflowChecks (inner :: body) =
          (Outcome.orFail .compression out).bind compressor.capped :=
  ⟨fun _ => decompressFrame_eq_ok_iff hmax, decompressFrame_eq_tooLarge_iff hmax,
    decompressFrame_cases hmax wire, fun _ h => decompressFrame_congr hmax h wire,
    fun _ _ _ hknown hdeflated hchunks => decompress_chunks hmax hknown hdeflated hchunks⟩

/-- The stored block of three characters, as text. -/
def storedText : Frame :=
  .binary ([flagText, flagCompressed, 0x01, 3, 0, 0xfc, 0xff] ++ utf8 ['h', 'e', 'y'])

/-- Three characters in a stored block are too large for a cap of two. -/
theorem decompressFrame_bounded_storedText :
    decompressFrame storedBlock true ⟨⟨6, 64, 2⟩⟩ storedText = .error (.failed .payloadTooLarge) := by
  have hlong : storedBlock.Exceeds flagCompressed
      ([0x01, 3, 0, 0xfc, 0xff] ++ utf8 ['h', 'e', 'y']) 2 := by
    intro i hi
    obtain rfl | rfl | rfl : i = 0 ∨ i = 1 ∨ i = 2 := by omega
    · exact ⟨_, rfl⟩
    · exact ⟨_, rfl⟩
    · exact ⟨_, rfl⟩
  exact (decompressFrame_bounded storedBlock true ⟨⟨6, 64, 2⟩⟩ (by decide) storedText).2.1.2
    ⟨flagText, flagCompressed, _, rfl, by decide, by decide, hlong⟩

end FrameCompressor

end WsKit
