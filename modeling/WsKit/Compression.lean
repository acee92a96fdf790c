import WsKit.Codec
import WsKit.Base.Reader

/-!
# Application-layer compression

The codec of `src/compression.rs`. DEFLATE itself is a parameter: an encoder that produces
a stream or fails, and a decoder read byte by byte. The wire form nests two flag bytes, the
outer one written by `compressFrame` and the inner one by `compress`.
-/

namespace WsKit

open Base

/-- Envelope flag: the payload is raw DEFLATE. -/
def flagCompressed : UInt8 := 0x01

/-- Envelope flag: the original frame was text. -/
def flagText : UInt8 := 0x02

/-- All defined flag bits. -/
def flagKnown : UInt8 := flagCompressed ||| flagText

/-- Compression settings; the two sizes are 64-bit `usize` values. -/
structure CompressionConfig where
  level : UInt8
  minSize : UInt64
  maxSize : UInt64
  deriving DecidableEq

/-- The default settings. -/
def CompressionConfig.default : CompressionConfig := ⟨6, 64, 1024 * 1024⟩

/-- A raw DEFLATE implementation. -/
structure Flate where
  /-- Write all the data at a level and finish the stream. -/
  deflate : UInt8 → Bytes → Option Bytes
  /-- The output of the decoder on a stream. -/
  inflate : Bytes → Reader

/-- What the codec relies on: encoding does not fail at the levels 0 to 9, and decoding an
encoding yields the data and ends. -/
structure Flate.Lossless (flate : Flate) : Prop where
  roundTrip : ∀ level data, level ≤ 9 →
    ∃ stream, flate.deflate level data = some stream ∧ (flate.inflate stream).Yields 0 data

/-- Encodes and decodes frames under fixed settings. -/
structure FrameCompressor where
  config : CompressionConfig

namespace FrameCompressor

variable (flate : Flate) (overflowChecks : Bool) (compressor : FrameCompressor)

/-- The inner flags and the body chosen for a payload. -/
def compressBody (data : Bytes) : Outcome WsError (UInt8 × Bytes) :=
  if compressor.config.minSize.toNat ≤ data.length then do
    let compressed ← Outcome.orFail .compression (flate.deflate compressor.config.level data)
    -- kept only when it is shorter, so the wire form never grows beyond the flags
    if compressed.length < data.length then return (0 ||| flagCompressed, compressed)
    else return (0, data)
  else return (0, data)

/-- Compress a payload into the envelope form. -/
def compress (data : Bytes) : Outcome WsError Bytes := do
  let (flags, body) ← compressor.compressBody flate data
  return flags :: body

/-- Decode an envelope produced by `compress`. -/
def decompress (enveloped : Bytes) : Outcome WsError Bytes :=
  match enveloped with
  | [] => .error (.failed .compression)
  | flags :: body =>
    if flags &&& ~~~flagKnown ≠ 0 then .error (.failed .compression)
    else if flags &&& flagCompressed = 0 then
      if compressor.config.maxSize.toNat < body.length then .error (.failed .payloadTooLarge)
      else return body
    else do
      let limit ← Outcome.addU64 overflowChecks compressor.config.maxSize 1
      let out ← Outcome.orFail .compression ((flate.inflate body).readToEnd 0 limit.toNat)
      if compressor.config.maxSize.toNat < out.length then .error (.failed .payloadTooLarge)
      else return out

/-- Compress a frame into a wire-ready binary frame. -/
def compressFrame (frame : Frame) : Outcome WsError Frame := do
  let flags := if frame.isText then 0 ||| flagText else 0
  let payload ← compressor.compress flate frame.asBytes
  return .binary (flags :: payload)

/-- Restore a frame from its wire form. -/
def decompressFrame (frame : Frame) : Outcome WsError Frame :=
  match frame.intoBytes with
  | [] => .error (.failed .compression)
  | flags :: body =>
    if flags &&& ~~~flagKnown ≠ 0 then .error (.failed .compression)
    else do
      let payload ← compressor.decompress flate overflowChecks body
      if flags &&& flagText ≠ 0 then do
        let s ← Outcome.orFail .compression (fromUtf8 payload)
        return .text s
      else return .binary payload

/-- A payload under the receiver's cap, and what the cap does to a longer one. -/
def capped (payload : Bytes) : Outcome WsError Bytes :=
  if compressor.config.maxSize.toNat < payload.length then .error (.failed .payloadTooLarge)
  else .ok payload

variable {flate overflowChecks compressor}

/-- An identity envelope decodes to its body, subject to the cap. -/
theorem decompress_identity (body : Bytes) :
    compressor.decompress flate overflowChecks (0 :: body) = compressor.capped body := by
  simp [decompress, capped, flagKnown, flagCompressed, flagText, pure, Except.pure]

/-- A compressed envelope decodes to what its stream yields, subject to the same cap: the limit
lies one byte past the cap, so a longer payload is always noticed. -/
theorem decompress_compressed {stream data : Bytes}
    (hmax : compressor.config.maxSize.toNat + 1 < 2 ^ 64)
    (hstream : (flate.inflate stream).Yields 0 data) :
    compressor.decompress flate overflowChecks (flagCompressed :: stream) =
      compressor.capped data := by
  have hfits : compressor.config.maxSize.toNat + UInt64.toNat 1 < 2 ^ 64 := hmax
  obtain ⟨hadd, hvalue⟩ := Outcome.addU64_of_lt (ε := WsError) overflowChecks hfits
  have hread := Reader.readToEnd_of_yields hstream (compressor.config.maxSize + 1).toNat
  rw [hvalue] at hread
  have hflags : ¬ flagCompressed &&& ~~~flagKnown ≠ 0 := by decide
  have hset : ¬ flagCompressed &&& flagCompressed = 0 := by decide
  simp only [decompress, if_neg hflags, if_neg hset, hadd, bind, Except.bind, hvalue, hread,
    Outcome.orFail_some, capped]
  by_cases hlong : compressor.config.maxSize.toNat < data.length
  · have htake : compressor.config.maxSize.toNat <
        (data.take (compressor.config.maxSize.toNat + UInt64.toNat 1)).length := by
      rw [List.length_take]
      exact lt_min (by simp) hlong
    rw [if_pos htake, if_pos hlong]
  · have htake : data.take (compressor.config.maxSize.toNat + UInt64.toNat 1) = data :=
      List.take_of_length_le (by simp; omega)
    rw [htake, if_neg hlong, if_neg hlong]
    rfl

/-- Whatever body the sender chose, its payload comes back subject to the receiver's cap. -/
theorem decompress_compress (overflowChecks : Bool) {sender receiver : FrameCompressor}
    (hflate : flate.Lossless) (hlevel : sender.config.level ≤ 9) (hmax : receiver.config.maxSize.toNat + 1 < 2 ^ 64)
    (data : Bytes) :
    ∃ enveloped, sender.compress flate data = .ok enveloped ∧
      receiver.decompress flate overflowChecks enveloped = receiver.capped data := by
  obtain ⟨stream, hdeflate, hstream⟩ := hflate.roundTrip sender.config.level data hlevel
  by_cases hmin : sender.config.minSize.toNat ≤ data.length
  · by_cases hshort : stream.length < data.length
    · refine ⟨flagCompressed :: stream, ?_, decompress_compressed hmax hstream⟩
      simp [compress, compressBody, hmin, hdeflate, hshort, bind, Except.bind, pure, Except.pure]
    · refine ⟨0 :: data, ?_, decompress_identity data⟩
      simp [compress, compressBody, hmin, hdeflate, hshort, bind, Except.bind, pure, Except.pure]
  · refine ⟨0 :: data, ?_, decompress_identity data⟩
    simp [compress, compressBody, hmin, bind, Except.bind, pure, Except.pure]

/-- The outer flags restore the kind of the frame around a payload that decodes to its bytes. -/
theorem decompressFrame_outer (frame : Frame) (enveloped : Bytes) :
    compressor.decompressFrame flate overflowChecks
        (.binary ((if frame.isText then 0 ||| flagText else 0) :: enveloped)) =
      (compressor.decompress flate overflowChecks enveloped).bind fun payload =>
        if frame.isText then Outcome.orFail .compression ((fromUtf8 payload).map Frame.text)
        else .ok (.binary payload) := by
  cases frame with
  | text s =>
    have hknown : ¬ (0 ||| flagText) &&& ~~~flagKnown ≠ 0 := by decide
    have htext : (0 ||| flagText) &&& flagText ≠ 0 := by decide
    simp only [Frame.isText, if_true, decompressFrame, Frame.intoBytes, if_neg hknown,
      if_pos htext, bind, Except.bind]
    cases compressor.decompress flate overflowChecks enveloped with
    | error fault => rfl
    | ok payload =>
      dsimp only
      cases fromUtf8 payload <;> rfl
  | binary b =>
    have hknown : ¬ (0 : UInt8) &&& ~~~flagKnown ≠ 0 := by decide
    have htext : ¬ (0 : UInt8) &&& flagText ≠ 0 := by decide
    simp only [Frame.isText, Bool.false_eq_true, if_false, decompressFrame, Frame.intoBytes,
      if_neg hknown, if_neg htext, bind]
    rfl

/-- A frame compressed under any sender settings is restored by any receiver whose cap admits it,
and refused as too large by any other. -/
theorem decompressFrame_compressFrame (hflate : flate.Lossless) (overflowChecks : Bool)
    (sender receiver : FrameCompressor) (hlevel : sender.config.level ≤ 9)
    (hmax : receiver.config.maxSize.toNat + 1 < 2 ^ 64) (frame : Frame) :
    ∃ wire, sender.compressFrame flate frame = .ok wire ∧
      (frame.len ≤ receiver.config.maxSize.toNat →
        receiver.decompressFrame flate overflowChecks wire = .ok frame) ∧
      (receiver.config.maxSize.toNat < frame.len →
        receiver.decompressFrame flate overflowChecks wire = .error (.failed .payloadTooLarge)) := by
  obtain ⟨enveloped, hsend, hreceive⟩ :=
    decompress_compress overflowChecks hflate hlevel hmax frame.asBytes
  refine ⟨.binary ((if frame.isText then 0 ||| flagText else 0) :: enveloped), ?_, ?_, ?_⟩
  · simp only [compressFrame, hsend, bind, Except.bind]
    rfl
  · intro hfits
    have hcap : ¬ receiver.config.maxSize.toNat < frame.asBytes.length := by
      rw [Frame.length_asBytes]
      omega
    rw [decompressFrame_outer, hreceive, capped, if_neg hcap]
    cases frame with
    | text s => simp [Except.bind, Frame.isText, Frame.asBytes]
    | binary b => rfl
  · intro hlong
    rw [← Frame.length_asBytes] at hlong
    rw [decompressFrame_outer, hreceive, capped, if_pos hlong]
    rfl

end FrameCompressor

/-- The encoder of level 0 on up to 65535 bytes: one final stored block, without compression. -/
def storedBlock : Flate where
  deflate _ data :=
    let n := UInt16.ofNat data.length
    some ([0x01, n.toUInt8, (n >>> 8).toUInt8, (~~~n).toUInt8, (~~~n >>> 8).toUInt8] ++ data)
  inflate stream := Reader.ofBytes (stream.drop 5)

/-- Dropping the header of a stored block yields its data. -/
theorem storedBlock_lossless : storedBlock.Lossless where
  roundTrip _ data _ := ⟨_, rfl, Reader.ofBytes_yields data⟩

/-- Two characters at level 0 cross to a receiver whose cap they reach, and not below it. -/
theorem FrameCompressor.decompressFrame_compressFrame_stored :
    ∃ wire, compressFrame storedBlock ⟨⟨0, 0, 0⟩⟩ (.text ['h', 'i']) = .ok wire ∧
      decompressFrame storedBlock true ⟨⟨9, 64, 2⟩⟩ wire = .ok (.text ['h', 'i']) := by
  obtain ⟨wire, hsend, hfits, -⟩ := decompressFrame_compressFrame storedBlock_lossless true
    ⟨⟨0, 0, 0⟩⟩ ⟨⟨9, 64, 2⟩⟩ (by decide) (by decide) (.text ['h', 'i'])
  exact ⟨wire, hsend, hfits (by decide)⟩

end WsKit
