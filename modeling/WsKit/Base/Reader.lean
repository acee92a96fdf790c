import WsKit.Base.Utf8

/-!
# Byte readers and bounded reading to the end

A reader answers each read with a byte, the end of the stream, or a failure, and may go on
forever. Reading to the end under a limit takes at most that many bytes: it succeeds at the
end of the stream or at the limit, whichever comes first, and fails only on a failure met
before either.
-/

namespace Base

/-- The answer to reading one byte. -/
inductive Pull where
  | byte (b : UInt8)
  | eof
  | failed
  deriving DecidableEq

/-- A stream of answers, indexed by the number of bytes already taken. -/
abbrev Reader := ℕ → Pull

namespace Reader

/-- Read to the end, taking at most `limit` bytes from position `start`. -/
def readToEnd (reader : Reader) (start : ℕ) : ℕ → Option Bytes
  | 0 => some []
  | limit + 1 =>
    match reader start with
    | .byte b => (readToEnd reader (start + 1) limit).map (b :: ·)
    | .eof => some []
    | .failed => none

/-- From position `start` the reader yields exactly these bytes and then ends. -/
def Yields (reader : Reader) (start : ℕ) : Bytes → Prop
  | [] => reader start = .eof
  | b :: rest => reader start = .byte b ∧ Yields reader (start + 1) rest

/-- From position `start` the reader yields these bytes, whatever comes after them. -/
def Begins (reader : Reader) (start : ℕ) : Bytes → Prop
  | [] => True
  | b :: rest => reader start = .byte b ∧ Begins reader (start + 1) rest

/-- The reader of a byte string. -/
def ofBytes (bytes : Bytes) : Reader := fun i =>
  match bytes[i]? with
  | some b => .byte b
  | none => .eof

/-- A reader that ends cleanly gives its bytes up to the limit. -/
theorem readToEnd_of_yields {reader : Reader} {start : ℕ} {data : Bytes}
    (h : reader.Yields start data) (limit : ℕ) :
    reader.readToEnd start limit = some (data.take limit) := by
  induction data generalizing start limit with
  | nil =>
    cases limit with
    | zero => rfl
    | succ limit =>
      have heof : reader start = .eof := h
      simp [readToEnd, heof]
  | cons b rest ih =>
    cases limit with
    | zero => rfl
    | succ limit => simp [readToEnd, h.1, ih h.2]

/-- Reading succeeds with what fills the limit, or with all that the reader yields below it. -/
theorem readToEnd_eq_some_iff {reader : Reader} {start limit : ℕ} {out : Bytes} :
    reader.readToEnd start limit = some out ↔
      (out.length = limit ∧ reader.Begins start out) ∨
        (out.length < limit ∧ reader.Yields start out) := by
  induction limit generalizing start out with
  | zero => cases out <;> simp [readToEnd, Begins, Yields]
  | succ limit ih =>
    rw [readToEnd]
    cases hpull : reader start with
    | byte b =>
      cases out with
      | nil => simp [Yields, hpull]
      | cons b' rest =>
        simp only [Option.map_eq_some_iff, List.cons.injEq, List.length_cons, Nat.add_right_cancel_iff,
          Nat.add_lt_add_iff_right, Begins, Yields, hpull, Pull.byte.injEq]
        constructor
        · rintro ⟨rest', hrest, rfl, rfl⟩
          rcases ih.1 hrest with ⟨hlen, hbegins⟩ | ⟨hlen, hyields⟩
          · exact .inl ⟨hlen, rfl, hbegins⟩
          · exact .inr ⟨hlen, rfl, hyields⟩
        · rintro (⟨hlen, rfl, hbegins⟩ | ⟨hlen, rfl, hyields⟩)
          · exact ⟨rest, ih.2 (.inl ⟨hlen, hbegins⟩), rfl, rfl⟩
          · exact ⟨rest, ih.2 (.inr ⟨hlen, hyields⟩), rfl, rfl⟩
    | eof => cases out <;> simp [Begins, Yields, hpull]
    | failed => cases out <;> simp [Begins, Yields, hpull]

/-- A reader begins with some `n` bytes exactly when it gives a byte at each of `n` positions. -/
theorem exists_begins_iff (reader : Reader) (start n : ℕ) :
    (∃ out, out.length = n ∧ reader.Begins start out) ↔
      ∀ i < n, ∃ b, reader (start + i) = .byte b := by
  induction n generalizing start with
  | zero => simp [Begins]
  | succ n ih =>
    constructor
    · rintro ⟨out, hlen, hbegins⟩ i hi
      cases out with
      | nil => cases hlen
      | cons b rest =>
        cases i with
        | zero => exact ⟨b, hbegins.1⟩
        | succ i =>
          have hrest := (ih (start + 1)).1 ⟨rest, Nat.succ.inj hlen, hbegins.2⟩ i (by omega)
          rwa [Nat.add_right_comm] at hrest
    · intro h
      obtain ⟨b, hb⟩ := h 0 (by omega)
      obtain ⟨rest, hlen, hrest⟩ := (ih (start + 1)).2 fun i hi => by
        have hnext := h (i + 1) (by omega)
        rwa [← Nat.add_assoc, Nat.add_right_comm] at hnext
      exact ⟨b :: rest, by rw [List.length_cons, hlen], hb, hrest⟩

/-- A reader begins with the bytes that it gives position by position. -/
theorem begins_of_getElem {reader : Reader} {start : ℕ} {part : Bytes}
    (h : ∀ (i : ℕ) (hi : i < part.length), reader (start + i) = .byte part[i]) :
    reader.Begins start part := by
  induction part generalizing start with
  | nil => trivial
  | cons b rest ih =>
    refine ⟨h 0 (Nat.zero_lt_succ _), ih fun i hi => ?_⟩
    have hnext := h (i + 1) (Nat.succ_lt_succ hi)
    rwa [← Nat.add_assoc, Nat.add_right_comm] at hnext

/-- Reading past what a reader begins with reads on behind it. -/
theorem readToEnd_add_of_begins {reader : Reader} {start : ℕ} {part : Bytes}
    (h : reader.Begins start part) (n : ℕ) :
    reader.readToEnd start (part.length + n) =
      (reader.readToEnd (start + part.length) n).map (part ++ ·) := by
  induction part generalizing start with
  | nil => simp
  | cons b rest ih =>
    rw [List.length_cons, Nat.add_right_comm, readToEnd, h.1, ih h.2, Nat.add_right_comm,
      Nat.add_assoc]
    exact Option.map_map _ _ _

/-- Only the answers below the limit decide the result. -/
theorem readToEnd_congr {reader reader' : Reader} {start limit : ℕ}
    (h : ∀ i < limit, reader (start + i) = reader' (start + i)) :
    reader.readToEnd start limit = reader'.readToEnd start limit := by
  induction limit generalizing start with
  | zero => rfl
  | succ limit ih =>
    have hrest : reader.readToEnd (start + 1) limit = reader'.readToEnd (start + 1) limit := by
      refine ih fun i hi => ?_
      have hnext := h (i + 1) (by omega)
      rwa [← Nat.add_assoc, Nat.add_right_comm] at hnext
    have hfirst := h 0 (by omega)
    rw [Nat.add_zero] at hfirst
    rw [readToEnd, readToEnd, hfirst, hrest]

/-- The reader of a byte string yields it from the start. -/
theorem ofBytes_yields (bytes : Bytes) : (ofBytes bytes).Yields 0 bytes := by
  have hfrom (read rest : Bytes) : (ofBytes (read ++ rest)).Yields read.length rest := by
    induction rest generalizing read with
    | nil => simp [Yields, ofBytes]
    | cons b rest ih =>
      refine ⟨by simp [ofBytes], ?_⟩
      simpa using ih (read ++ [b])
  exact hfrom [] bytes

end Reader

end Base
