import WsKit.Base.Reader
import Mathlib.Algebra.Ring.Nat

/-!
# Readers that answer in chunks

A source answers each read with a nonempty chunk, its end, or a failure. Under a limit a chunk
is taken only up to what is left, so reading to the end takes no more than the limit, and gives
what reading byte by byte gives.
-/

namespace Base

/-- The answer to a read. -/
inductive Chunk where
  | data (b : UInt8) (rest : Bytes)
  | eof
  | failed

/-- The answers to successive reads. -/
abbrev Chunks := ℕ → Chunk

namespace Chunks

/-- The byte at a position, counted from a chunk on. -/
def pull (chunks : Chunks) (k i : ℕ) : Pull :=
  match chunks k with
  | .eof => .eof
  | .failed => .failed
  | .data b rest =>
    if h : i < (b :: rest).length then .byte (b :: rest)[i]
    else chunks.pull (k + 1) (i - (b :: rest).length)
termination_by i
decreasing_by simp only [List.length_cons] at h ⊢; omega

/-- The source, read byte by byte. -/
def reader (chunks : Chunks) : Reader := chunks.pull 0

/-- Read chunks to the end under a limit: the number of bytes taken, and the bytes unless a read
failed. -/
def readToEnd (chunks : Chunks) (k limit : ℕ) : ℕ × Option Bytes :=
  if limit = 0 then (0, some [])
  else
    match chunks k with
    | .eof => (0, some [])
    | .failed => (0, none)
    | .data b rest =>
      let part := (b :: rest).take limit
      let (taken, out) := chunks.readToEnd (k + 1) (limit - part.length)
      (part.length + taken, out.map (part ++ ·))
termination_by limit
decreasing_by simp only [List.length_take, List.length_cons]; omega

/-- No more than the limit is taken. -/
theorem readToEnd_taken_le (chunks : Chunks) (k limit : ℕ) :
    (chunks.readToEnd k limit).1 ≤ limit := by
  fun_induction readToEnd chunks k limit with
  | case1 k => exact Nat.zero_le _
  | case2 k limit => exact Nat.zero_le _
  | case3 k limit => exact Nat.zero_le _
  | case4 k limit _ b rest hchunk part taken out hrest ih =>
    have hpart : part.length ≤ limit := List.length_take_le _ _
    rw [hrest] at ih
    dsimp only at ih ⊢
    omega

/-- Chunk by chunk the same is read as byte by byte. -/
theorem readToEnd_reader_shift (chunks : Chunks) (k limit : ℕ) (reader : Reader) :
    ∀ start, (∀ i, reader (start + i) = chunks.pull k i) →
      reader.readToEnd start limit = (chunks.readToEnd k limit).2 := by
  fun_induction readToEnd chunks k limit with
  | case1 k =>
    intro start h
    rfl
  | case2 k limit hlimit hchunk | case3 k limit hlimit hchunk =>
    intro start h
    have hfirst := h 0
    obtain ⟨limit, rfl⟩ := Nat.exists_eq_succ_of_ne_zero hlimit
    rw [pull, hchunk, Nat.add_zero] at hfirst
    rw [Reader.readToEnd, hfirst]
  | case4 k limit hlimit b rest hchunk part taken out hrest ih =>
    intro start h
    have hpart : part.length ≤ limit := List.length_take_le _ _
    have hlength : part.length = min limit (b :: rest).length := List.length_take
    have hbegins : reader.Begins start part := Reader.begins_of_getElem fun i hi => by
      have hchunkLength : i < (b :: rest).length := by omega
      rw [h i, pull, hchunk]
      simp only [dif_pos hchunkLength, part, List.getElem_take]
    have hread := Reader.readToEnd_add_of_begins hbegins (limit - part.length)
    rw [Nat.add_sub_cancel' hpart] at hread
    rw [hread]
    dsimp only
    congr 1
    rw [hrest] at ih
    by_cases hfull : limit ≤ (b :: rest).length
    · -- the chunk fills the limit, and nothing is read behind it
      have hnone : limit - part.length = 0 := by omega
      rw [hnone] at hrest ⊢
      rw [readToEnd, if_pos rfl, Prod.mk.injEq] at hrest
      rw [← hrest.2]
      rfl
    · have hwhole : part.length = (b :: rest).length := by omega
      refine ih _ fun i => ?_
      have hbehind : ¬ part.length + i < (b :: rest).length := by omega
      rw [Nat.add_assoc, h, pull, hchunk]
      simp only [dif_neg hbehind]
      rw [← hwhole, Nat.add_sub_cancel_left]

/-- A source read byte by byte gives what it gives chunk by chunk. -/
theorem readToEnd_reader (chunks : Chunks) (limit : ℕ) :
    chunks.reader.readToEnd 0 limit = (chunks.readToEnd 0 limit).2 :=
  readToEnd_reader_shift chunks 0 limit _ 0 fun i => by rw [Nat.zero_add, reader]

end Chunks

end Base
