import WsKit.Codec

/-!
# The pub/sub envelope

`version(1) | node_id(16) | kind(1) | payload`, written front to back by the encoder and
read at fixed offsets by the decoder. Both are determined by one reading of a byte string
as a header and a payload, which makes the code a bijection onto the strings it accepts.
-/

namespace WsKit

open Base

/-- Envelope protocol version byte. -/
def envelopeVersion : UInt8 := 1

/-- Payload kind tag of a text frame. -/
def kindText : UInt8 := 0

/-- Payload kind tag of a binary frame. -/
def kindBinary : UInt8 := 1

/-- Total header length: version, node id and kind. -/
def headerLen : ℕ := 18

/-- A registry's publisher id. -/
abbrev NodeId := {id : Bytes // id.length = 16}

/-- The bytes at positions `lo` up to `hi`, when the range lies inside the string. -/
def getRange (bytes : Bytes) (lo hi : ℕ) : Option Bytes :=
  if lo ≤ hi ∧ hi ≤ bytes.length then some ((bytes.drop lo).take (hi - lo)) else none

/-- The bytes from position `lo` on, when it lies inside the string or at its end. -/
def getFrom (bytes : Bytes) (lo : ℕ) : Option Bytes :=
  if lo ≤ bytes.length then some (bytes.drop lo) else none

/-- Copy bytes into a node id; lengths that differ panic. -/
def copyNodeId (bytes : Bytes) : Option NodeId :=
  if h : bytes.length = 16 then some ⟨bytes, h⟩ else none

/-- The kind tag written for a frame. -/
def kindTag : Frame → UInt8
  | .text _ => kindText
  | .binary _ => kindBinary

/-- Encode a frame into the envelope. -/
def encodeEnvelope (nodeId : NodeId) (frame : Frame) : Bytes :=
  [envelopeVersion] ++ nodeId.val ++ [kindTag frame] ++ frame.asBytes

/-- Decode an envelope, keeping the publisher's node id. -/
def decodeEnvelope (bytes : Bytes) : Outcome WsError (NodeId × Frame) :=
  if bytes.length < headerLen ∨ bytes.head? ≠ some envelopeVersion then
    .error (.failed .invalidMessage)
  else do
    let idBytes ← Outcome.orFail .invalidMessage (getRange bytes 1 17)
    let nodeId ← Outcome.orPanic (copyNodeId idBytes)
    let kind ← Outcome.orFail .invalidMessage bytes[17]?
    let payload ← Outcome.orFail .invalidMessage (getFrom bytes headerLen)
    if kind = kindText then do
      let s ← Outcome.orFail .invalidMessage (fromUtf8 payload)
      return (nodeId, .text s)
    else if kind = kindBinary then return (nodeId, .binary payload)
    else .error (.failed .invalidMessage)

/-- The byte strings an envelope decoder accepts. -/
def WellFormedEnvelope (bytes : Bytes) : Prop :=
  18 ≤ bytes.length ∧ bytes[0]? = some 1 ∧ (bytes[17]? = some 0 ∨ bytes[17]? = some 1) ∧
    (bytes[17]? = some 0 → ValidUtf8 (bytes.drop 18))

/-- The frame a kind tag and a payload stand for. -/
def frameOfKind (kind : UInt8) (payload : Bytes) : Option Frame :=
  if kind = kindText then (fromUtf8 payload).map Frame.text
  else if kind = kindBinary then some (.binary payload)
  else none

/-- A string of at least the header's length is a header followed by a payload. -/
theorem exists_header {bytes : Bytes} (h : 18 ≤ bytes.length) :
    ∃ (version kind : UInt8) (nodeId : NodeId) (payload : Bytes),
      bytes = version :: (nodeId.val ++ kind :: payload) := by
  cases bytes with
  | nil => simp at h
  | cons version rest =>
    have hrest : 17 ≤ rest.length := by simpa using h
    have hid : (rest.take 16).length = 16 := by rw [List.length_take]; omega
    refine ⟨version, rest[16], ⟨rest.take 16, hid⟩, rest.drop 17, ?_⟩
    rw [List.cons_getElem_drop_succ, List.take_append_drop]

/-- On a header and a payload the decoder checks the version and reads the tagged frame. -/
theorem decodeEnvelope_header (version kind : UInt8) (nodeId : NodeId) (payload : Bytes) :
    decodeEnvelope (version :: (nodeId.val ++ kind :: payload)) =
      if version = envelopeVersion then
        Outcome.orFail .invalidMessage ((frameOfKind kind payload).map fun frame => (nodeId, frame))
      else .error (.failed .invalidMessage) := by
  obtain ⟨id, hid⟩ := nodeId
  by_cases hversion : version = envelopeVersion
  · have hrange : getRange (version :: (id ++ kind :: payload)) 1 17 = some id := by
      simp [getRange, hid]
    have hcopy : copyNodeId id = some ⟨id, hid⟩ := by rw [copyNodeId, dif_pos hid]
    have hkind : (version :: (id ++ kind :: payload))[17]? = some kind := by
      simp [hid]
    have hdrop : (version :: (id ++ kind :: payload)).drop 18 = payload := by
      rw [List.drop_succ_cons, List.drop_append, hid, List.drop_of_length_le (by omega)]
      rfl
    have hpayload : getFrom (version :: (id ++ kind :: payload)) headerLen = some payload := by
      rw [getFrom, headerLen, hdrop, if_pos (by simp [hid]; omega)]
    have hguard : ¬ ((version :: (id ++ kind :: payload)).length < headerLen ∨
        (version :: (id ++ kind :: payload)).head? ≠ some envelopeVersion) := by
      simp [headerLen, hid, hversion]
      omega
    rw [decodeEnvelope, if_neg hguard, if_pos hversion]
    simp only [hrange, hcopy, hkind, hpayload, Outcome.orFail_some, Outcome.orPanic_some, bind,
      Except.bind, frameOfKind]
    split
    · cases fromUtf8 payload <;> rfl
    · split <;> rfl
  · rw [decodeEnvelope, if_neg hversion, if_pos (Or.inr (by simpa using hversion))]

/-- The encoder writes exactly the header and payload that the decoder reads. -/
theorem encodeEnvelope_eq (nodeId : NodeId) (frame : Frame) :
    encodeEnvelope nodeId frame =
      envelopeVersion :: (nodeId.val ++ kindTag frame :: frame.asBytes) := by
  simp [encodeEnvelope]

/-- A tag and payload stand for a frame exactly when the encoder writes them for it. -/
theorem frameOfKind_eq_some_iff {kind : UInt8} {payload : Bytes} {frame : Frame} :
    frameOfKind kind payload = some frame ↔ kindTag frame = kind ∧ frame.asBytes = payload := by
  have hne : kindBinary ≠ kindText := by decide
  cases frame with
  | text s =>
    constructor
    · intro h
      by_cases hk : kind = kindText
      · rw [frameOfKind, if_pos hk, Option.map_eq_some_iff] at h
        obtain ⟨t, ht, heq⟩ := h
        obtain rfl : t = s := by simpa using heq
        exact ⟨hk.symm, utf8_of_fromUtf8 ht⟩
      · rw [frameOfKind, if_neg hk] at h
        split at h <;> simp at h
    · rintro ⟨rfl, rfl⟩
      simp [frameOfKind, kindTag, Frame.asBytes]
  | binary b =>
    constructor
    · intro h
      by_cases hk : kind = kindText
      · simp [frameOfKind, hk] at h
      · by_cases hb : kind = kindBinary
        · rw [frameOfKind, if_neg hk, if_pos hb, Option.some.injEq, Frame.binary.injEq] at h
          exact ⟨hb.symm, h.symm⟩
        · simp [frameOfKind, hk, hb] at h
    · rintro ⟨rfl, rfl⟩
      simp [frameOfKind, kindTag, hne, Frame.asBytes]

/-- The tag and payload stand for a frame exactly when the tag is known and text is UTF-8. -/
theorem exists_frameOfKind_iff {kind : UInt8} {payload : Bytes} :
    (∃ frame, frameOfKind kind payload = some frame) ↔
      (kind = 0 ∨ kind = 1) ∧ (kind = 0 → ValidUtf8 payload) := by
  simp only [frameOfKind_eq_some_iff]
  constructor
  · rintro ⟨frame, rfl, rfl⟩
    cases frame with
    | text s => exact ⟨Or.inl rfl, fun _ => ⟨s, rfl⟩⟩
    | binary b => exact ⟨Or.inr rfl, fun h => absurd h (by simp [kindTag, kindBinary])⟩
  · rintro ⟨rfl | rfl, hutf8⟩
    · obtain ⟨s, hs⟩ := hutf8 rfl
      exact ⟨.text s, rfl, hs⟩
    · exact ⟨.binary payload, rfl, rfl⟩

/-- Decoding an encoding returns the publisher and the frame. -/
theorem decodeEnvelope_encodeEnvelope (nodeId : NodeId) (frame : Frame) :
    decodeEnvelope (encodeEnvelope nodeId frame) = .ok (nodeId, frame) := by
  rw [encodeEnvelope_eq, decodeEnvelope_header, if_pos rfl,
    frameOfKind_eq_some_iff.mpr ⟨rfl, rfl⟩]
  rfl

/-- A string shorter than the header is an invalid message. -/
theorem decodeEnvelope_of_short {bytes : Bytes} (h : bytes.length < 18) :
    decodeEnvelope bytes = .error (.failed .invalidMessage) := by
  have hshort : bytes.length < headerLen := h
  rw [decodeEnvelope, if_pos (Or.inl hshort)]

/-- The accepted language, read off the header and payload of a string. -/
theorem wellFormedEnvelope_header (version kind : UInt8) (nodeId : NodeId) (payload : Bytes) :
    WellFormedEnvelope (version :: (nodeId.val ++ kind :: payload)) ↔
      version = envelopeVersion ∧ ∃ frame, frameOfKind kind payload = some frame := by
  obtain ⟨id, hid⟩ := nodeId
  have hkind : (version :: (id ++ kind :: payload))[17]? = some kind := by simp [hid]
  have hdrop : (version :: (id ++ kind :: payload)).drop 18 = payload := by
    rw [List.drop_succ_cons, List.drop_append, hid, List.drop_of_length_le (by omega)]
    rfl
  have hlen : 18 ≤ (version :: (id ++ kind :: payload)).length := by
    simp [hid]
    omega
  simp only [WellFormedEnvelope, hkind, hdrop, hlen, true_and, exists_frameOfKind_iff,
    List.getElem?_cons_zero, Option.some.injEq, envelopeVersion]

/-- A successful decoding is of the encoding of its result. -/
theorem encodeEnvelope_of_decodeEnvelope {bytes : Bytes} {nodeId : NodeId} {frame : Frame}
    (h : decodeEnvelope bytes = .ok (nodeId, frame)) : encodeEnvelope nodeId frame = bytes := by
  by_cases hlen : 18 ≤ bytes.length
  · obtain ⟨version, kind, id, payload, rfl⟩ := exists_header hlen
    rw [decodeEnvelope_header] at h
    by_cases hversion : version = envelopeVersion
    · rw [if_pos hversion] at h
      cases hf : frameOfKind kind payload with
      | none => simp [hf] at h
      | some decoded =>
        simp only [hf, Option.map_some, Outcome.orFail_some, Except.ok.injEq, Prod.mk.injEq] at h
        obtain ⟨rfl, rfl⟩ := h
        obtain ⟨rfl, rfl⟩ := frameOfKind_eq_some_iff.mp hf
        rw [encodeEnvelope_eq, hversion]
    · simp [hversion] at h
  · rw [decodeEnvelope_of_short (by omega)] at h
    cases h

/-- A string outside the accepted language is an invalid message. -/
theorem decodeEnvelope_of_not_wellFormed {bytes : Bytes} (h : ¬ WellFormedEnvelope bytes) :
    decodeEnvelope bytes = .error (.failed .invalidMessage) := by
  by_cases hlen : 18 ≤ bytes.length
  · obtain ⟨version, kind, id, payload, rfl⟩ := exists_header hlen
    rw [wellFormedEnvelope_header] at h
    rw [decodeEnvelope_header]
    by_cases hversion : version = envelopeVersion
    · cases hf : frameOfKind kind payload with
      | none => simp [hversion]
      | some frame => exact (h ⟨hversion, frame, hf⟩).elim
    · rw [if_neg hversion]
  · exact decodeEnvelope_of_short (by omega)

/-- A string is decoded exactly when it is a well formed envelope. -/
theorem exists_decodeEnvelope_iff {bytes : Bytes} :
    (∃ nodeId frame, decodeEnvelope bytes = .ok (nodeId, frame)) ↔ WellFormedEnvelope bytes := by
  constructor
  · rintro ⟨nodeId, frame, h⟩
    rw [← encodeEnvelope_of_decodeEnvelope h, encodeEnvelope_eq, wellFormedEnvelope_header]
    exact ⟨rfl, frame, frameOfKind_eq_some_iff.mpr ⟨rfl, rfl⟩⟩
  · intro h
    obtain ⟨version, kind, nodeId, payload, rfl⟩ := exists_header h.1
    obtain ⟨hversion, frame, hframe⟩ := (wellFormedEnvelope_header version kind nodeId payload).mp h
    exact ⟨nodeId, frame, by rw [decodeEnvelope_header, if_pos hversion, hframe]; rfl⟩

/-- The envelope is a bijection with the byte strings of its format: both round trips hold, the
accepted language is exactly the well formed envelopes, and everything else is an invalid message. -/
theorem envelope_bijective :
    (∀ nodeId frame, decodeEnvelope (encodeEnvelope nodeId frame) = .ok (nodeId, frame)) ∧
      (∀ bytes, (∃ nodeId frame, decodeEnvelope bytes = .ok (nodeId, frame)) ↔
        WellFormedEnvelope bytes) ∧
      (∀ bytes nodeId frame, decodeEnvelope bytes = .ok (nodeId, frame) →
        encodeEnvelope nodeId frame = bytes) ∧
      ∀ bytes, ¬ WellFormedEnvelope bytes →
        decodeEnvelope bytes = .error (.failed .invalidMessage) :=
  ⟨decodeEnvelope_encodeEnvelope, fun _ => exists_decodeEnvelope_iff,
    fun _ _ _ => encodeEnvelope_of_decodeEnvelope, fun _ => decodeEnvelope_of_not_wellFormed⟩

end WsKit
