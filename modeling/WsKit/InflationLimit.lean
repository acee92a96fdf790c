import WsKit.Compression

/-!
# The inflation limit

The limit is the cap plus one, on `u64`, while the cap is any `usize`. At the largest cap the sum
leaves the type: the branch that inflates panics or reads nothing, and the branch that does not
add still accepts everything.
-/

namespace WsKit

open Base

/-- Whatever the encoder finished, at any level, decodes to the data and ends. -/
def Flate.Inverts (flate : Flate) : Prop :=
  ∀ level data stream, flate.deflate level data = some stream →
    (flate.inflate stream).Yields 0 data

namespace FrameCompressor

variable {flate : Flate} {overflowChecks : Bool} {sender receiver : FrameCompressor}

/-- An envelope holds the payload itself, or a stream that is shorter. -/
theorem compress_eq_ok {data enveloped : Bytes} (h : sender.compress flate data = .ok enveloped) :
    enveloped = 0 :: data ∨
      ∃ stream, sender.config.minSize.toNat ≤ data.length ∧
        flate.deflate sender.config.level data = some stream ∧
        stream.length < data.length ∧ enveloped = flagCompressed :: stream := by
  rw [compress, compressBody] at h
  by_cases hmin : sender.config.minSize.toNat ≤ data.length
  · cases hdeflate : flate.deflate sender.config.level data with
    | none =>
      simp only [if_pos hmin, hdeflate, Outcome.orFail_none, bind, Except.bind] at h
      cases h
    | some stream =>
      by_cases hshort : stream.length < data.length
      · simp only [if_pos hmin, hdeflate, Outcome.orFail_some, if_pos hshort, bind, Except.bind,
          pure, Except.pure, Except.ok.injEq] at h
        exact .inr ⟨stream, hmin, rfl, hshort, h.symm⟩
      · simp only [if_pos hmin, hdeflate, Outcome.orFail_some, if_neg hshort, bind, Except.bind,
          pure, Except.pure, Except.ok.injEq] at h
        exact .inl h.symm
  · simp only [if_neg hmin, bind, Except.bind, pure, Except.pure, Except.ok.injEq] at h
    exact .inl h.symm

/-- Under the largest cap a build with overflow checks panics before it inflates. -/
theorem decompress_overflowing_checked (h : ¬ receiver.config.maxSize.toNat + 1 < 2 ^ 64)
    {flags : UInt8} (hknown : flags &&& ~~~flagKnown = 0) (hset : ¬ flags &&& flagCompressed = 0)
    (stream : Bytes) :
    receiver.decompress flate true (flags :: stream) = .error .panicked := by
  have hoverflows : (true = true) ∧ 2 ^ 64 ≤ receiver.config.maxSize.toNat + UInt64.toNat 1 :=
    ⟨rfl, not_lt.1 h⟩
  rw [decompress, if_neg (not_not.2 hknown), if_neg hset, Outcome.addU64, if_pos hoverflows]
  rfl

/-- Under the largest cap a wrapping build reads nothing and returns no bytes. -/
theorem decompress_overflowing_wrapping (h : ¬ receiver.config.maxSize.toNat + 1 < 2 ^ 64)
    {flags : UInt8} (hknown : flags &&& ~~~flagKnown = 0) (hset : ¬ flags &&& flagCompressed = 0)
    (stream : Bytes) :
    receiver.decompress flate false (flags :: stream) = .ok [] := by
  have hwraps : (receiver.config.maxSize + 1).toNat = 0 := by
    have hbound := receiver.config.maxSize.toNat_lt
    have hsum : receiver.config.maxSize.toNat + UInt64.toNat 1 = 2 ^ 64 := by
      rw [UInt64.toNat_one]
      omega
    rw [UInt64.toNat_add, hsum, Nat.mod_self]
  have hbuild : ¬ (false = true ∧ 2 ^ 64 ≤ receiver.config.maxSize.toNat + UInt64.toNat 1) :=
    fun hc => Bool.false_ne_true hc.1
  rw [decompress, if_neg (not_not.2 hknown), if_neg hset, Outcome.addU64, if_neg hbuild]
  simp only [bind, Except.bind, hwraps, Reader.readToEnd, Outcome.orFail_some, List.length_nil,
    Nat.not_lt_zero, if_false]
  rfl

/-- An envelope of a payload within the cap decodes to it in every build, exactly when one more
than the cap is a `u64` or the envelope is not compressed. Otherwise a build with overflow checks
panics and a wrapping build returns no bytes. -/
theorem decompress_within_cap_iff (hflate : flate.Inverts) (sender receiver : FrameCompressor)
    {data enveloped : Bytes} (hsend : sender.compress flate data = .ok enveloped)
    (hfits : data.length ≤ receiver.config.maxSize.toNat) :
    ((∀ overflowChecks, receiver.decompress flate overflowChecks enveloped = .ok data) ↔
      receiver.config.maxSize.toNat + 1 < 2 ^ 64 ∨ enveloped.head? = some 0) ∧
    (¬ (receiver.config.maxSize.toNat + 1 < 2 ^ 64 ∨ enveloped.head? = some 0) →
      receiver.decompress flate true enveloped = .error .panicked ∧
        receiver.decompress flate false enveloped = .ok []) := by
  have hcap : ¬ receiver.config.maxSize.toNat < data.length := not_lt.2 hfits
  rcases compress_eq_ok hsend with rfl | ⟨stream, _, hdeflate, hshort, rfl⟩
  · have hstored : ∀ overflowChecks,
        receiver.decompress flate overflowChecks (0 :: data) = .ok data := by
      intro overflowChecks
      rw [decompress_identity, capped, if_neg hcap]
    exact ⟨⟨fun _ => .inr rfl, fun _ => hstored⟩, fun h => (h (.inr rfl)).elim⟩
  · have hflagged : (flagCompressed :: stream).head? ≠ some 0 := by
      rw [List.head?_cons]
      decide
    by_cases hmax : receiver.config.maxSize.toNat + 1 < 2 ^ 64
    · refine ⟨⟨fun _ => .inl hmax, fun _ overflowChecks => ?_⟩, fun h => (h (.inl hmax)).elim⟩
      rw [decompress_compressed hmax (hflate _ _ _ hdeflate), capped, if_neg hcap]
    · refine ⟨⟨fun h => ?_, fun h => (h.elim hmax hflagged).elim⟩, fun _ => ?_⟩
      · have hpanic := h true
        rw [decompress_overflowing_checked hmax (by decide) (by decide)] at hpanic
        cases hpanic
      · exact ⟨decompress_overflowing_checked hmax (by decide) (by decide) stream,
          decompress_overflowing_wrapping hmax (by decide) (by decide) stream⟩

end FrameCompressor

/-- The stream that the encoder makes of 64 times the letter `a` at the default level. -/
def repetitionStream : Bytes :=
  [0xa5, 0xc0, 0x81, 0x00, 0x00, 0x00, 0x00, 0x80, 0x20, 0xd6, 0xfc, 0x25, 0x86, 0x38, 0x9e, 0x00]

/-- An encoder that writes 64 times the letter `a` as this stream, and all else as a stored block. -/
def oneRepetition : Flate where
  deflate level data :=
    if data = List.replicate 64 0x61 then some repetitionStream else storedBlock.deflate level data
  inflate stream :=
    if stream = repetitionStream then Reader.ofBytes (List.replicate 64 0x61)
    else storedBlock.inflate stream

/-- A stored block begins with another byte, so each stream has one reading. -/
theorem oneRepetition_inverts : oneRepetition.Inverts := by
  intro level data stream h
  simp only [oneRepetition] at h ⊢
  by_cases hdata : data = List.replicate 64 0x61
  · rw [if_pos hdata, Option.some.injEq] at h
    rw [if_pos h.symm, hdata]
    exact Reader.ofBytes_yields _
  · rw [if_neg hdata, storedBlock, Option.some.injEq] at h
    have hother : stream ≠ repetitionStream := by
      rintro rfl
      cases h
    rw [if_neg hother, ← h]
    exact Reader.ofBytes_yields data

namespace FrameCompressor

/-- The envelope of the repetition. -/
def repetition : Bytes := flagCompressed :: repetitionStream

/-- The repetition comes back under a cap that it reaches, in both builds. -/
theorem decompress_within_cap_repetition :
    decompress oneRepetition true ⟨⟨6, 64, 64⟩⟩ repetition = .ok (List.replicate 64 0x61) ∧
      decompress oneRepetition false ⟨⟨6, 64, 64⟩⟩ repetition = .ok (List.replicate 64 0x61) := by
  have hback := (decompress_within_cap_iff oneRepetition_inverts ⟨.default⟩ ⟨⟨6, 64, 64⟩⟩
    (show compress oneRepetition ⟨.default⟩ (List.replicate 64 0x61) = .ok repetition from rfl)
    (by decide)).1.2 (.inl (by decide))
  exact ⟨hback true, hback false⟩

/-- Without a limit the repetition is lost. -/
theorem unlimited_loses_repetition :
    ¬ ∀ (flate : Flate), flate.Inverts → ∀ (sender receiver : FrameCompressor) (data enveloped : Bytes),
      sender.compress flate data = .ok enveloped →
      data.length ≤ receiver.config.maxSize.toNat →
      ∀ overflowChecks, receiver.decompress flate overflowChecks enveloped = .ok data := by
  intro h
  have hback := h oneRepetition oneRepetition_inverts ⟨.default⟩ ⟨⟨6, 64, 18446744073709551615⟩⟩
    (List.replicate 64 0x61) repetition rfl (by decide) true
  rw [repetition, decompress_overflowing_checked (by decide) (by decide) (by decide)] at hback
  cases hback

end FrameCompressor

end WsKit
