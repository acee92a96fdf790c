import WsKit.Base.Str
import Mathlib.Data.List.Basic

/-!
# Fields of a header or a query

Texts made of parts with separators between them, and the standard-library operations that
take them apart again: splitting once at a character, trimming a character off the ends, and
the comparison of bytes up to ASCII case. Splitting everywhere is `List.splitOn`.
-/

namespace Base

/-- The two parts of `splitn(2, c)`, the second empty when the character does not occur. -/
def splitPair (c : Char) (s : Str) : Str × Str := (splitOnce [c] s).getD (s, [])

/-- Drop leading occurrences of a character. -/
def trimStartMatches (c : Char) (s : Str) : Str := s.dropWhile fun d => d = c

/-- Drop leading and trailing occurrences of a character. -/
def trimMatches (c : Char) (s : Str) : Str := (trimStartMatches c s).rdropWhile fun d => d = c

/-- The offset is at the beginning or the end of a character. -/
def isCharBoundary (s : Str) (n : ℕ) : Bool := (splitAtByte s n).isSome

/-- ASCII letters in lower case, every other byte unchanged. -/
def asciiLowerByte (b : UInt8) : UInt8 := if 65 ≤ b ∧ b ≤ 90 then b + 32 else b

/-- Equality of byte strings up to ASCII case. -/
def eqIgnoreAsciiCase (left right : Bytes) : Bool :=
  left.map asciiLowerByte = right.map asciiLowerByte

/-- A text is split at the first occurrence. -/
theorem splitPair_append {c : Char} {left : Str} (h : c ∉ left) (right : Str) :
    splitPair c (left ++ c :: right) = (left, right) := by
  have hsplit := splitOnce_of_notMem [] right h
  rw [List.append_assoc, List.singleton_append] at hsplit
  rw [splitPair, hsplit, Option.getD_some]

/-- A text that begins with another character is not trimmed at the start. -/
theorem trimStartMatches_eq_self {c : Char} {s : Str} (h : ∀ d ∈ s.head?, d ≠ c) :
    trimStartMatches c s = s := by
  cases s with
  | nil => rfl
  | cons d s => exact List.dropWhile_cons_of_neg (by simpa using h)

/-- Any number of occurrences is dropped. -/
theorem trimStartMatches_replicate_append (c : Char) (n : ℕ) (s : Str) :
    trimStartMatches c (List.replicate n c ++ s) = trimStartMatches c s := by
  induction n with
  | zero => rfl
  | succ n ih =>
    rw [List.replicate_succ, List.cons_append, trimStartMatches,
      List.dropWhile_cons_of_pos (by simp)]
    exact ih

/-- Nothing is trimmed off the end of a text without the character. -/
theorem rdropWhile_of_notMem {c : Char} {s : Str} (h : c ∉ s) :
    s.rdropWhile (fun d => d = c) = s := by
  rw [List.rdropWhile_eq_self_iff]
  intro hne hlast
  have heq : s.getLast hne = c := by simpa using hlast
  exact h (heq ▸ List.getLast_mem hne)

/-- A text without the character is not trimmed. -/
theorem trimMatches_of_notMem {c : Char} {s : Str} (h : c ∉ s) : trimMatches c s = s := by
  have hhead : ∀ d ∈ s.head?, d ≠ c := by
    rintro d hd rfl
    exact h (List.mem_of_mem_head? hd)
  rw [trimMatches, trimStartMatches_eq_self hhead, rdropWhile_of_notMem h]

/-- A pair of delimiters around a text without them is taken off. -/
theorem trimMatches_delimited {c : Char} {s : Str} (h : c ∉ s) :
    trimMatches c (c :: (s ++ [c])) = s := by
  have hstart : trimStartMatches c (c :: (s ++ [c])) = trimStartMatches c (s ++ [c]) :=
    List.dropWhile_cons_of_pos (by simp)
  rw [trimMatches, hstart]
  cases s with
  | nil => simp [trimStartMatches]
  | cons d s =>
    have hhead : ∀ e ∈ (d :: s ++ [c]).head?, e ≠ c := by
      intro e he heq
      obtain rfl : d = e := by simpa using he
      exact h (by simp [heq])
    rw [trimStartMatches_eq_self hhead, List.rdropWhile_concat_pos _ _ _ (by simp),
      rdropWhile_of_notMem h]

/-- A leading space is trimmed. -/
theorem trim_space_cons (s : Str) : trim (' ' :: s) = trim s := by
  rw [trim, List.dropWhile_cons_of_pos (by decide), trim]

/-- A text without white space is not trimmed. -/
theorem trim_eq_self_of_forall {s : Str} (h : ∀ c ∈ s, isWhitespace c = false) : trim s = s :=
  trim_eq_self (fun c hc => h c (List.mem_of_mem_head? hc))
    fun c hc => h c (List.mem_of_mem_getLast? hc)

/-- Padding after a separator belongs to the part that follows. -/
theorem intercalate_cons_pad {α : Type*} (x : α) (pad p : List α) (ps : List (List α)) :
    (x :: pad).intercalate (p :: ps) = [x].intercalate (p :: ps.map (pad ++ ·)) := by
  induction ps generalizing p with
  | nil => rw [List.map_nil, List.intercalate_singleton, List.intercalate_singleton]
  | cons q ps ih =>
    rw [List.map_cons, List.intercalate_cons_cons, List.intercalate_cons_cons, ih]
    cases ps with
    | nil => simp
    | cons r ps => simp [List.intercalate_cons_cons]

/-- A joined text begins with its first part. -/
theorem prefix_intercalate {α : Type*} (pad p : List α) (ps : List (List α)) :
    p <+: pad.intercalate (p :: ps) := by
  cases ps with
  | nil =>
    have hsingle : pad.intercalate [p] = p := List.intercalate_singleton
    exact ⟨[], by rw [List.append_nil, hsingle]⟩
  | cons q ps =>
    rw [List.intercalate_cons_cons, List.append_assoc]
    exact List.prefix_append p _

/-- The fields between separators are the parts without one that begin and end at a separator or
at an end of the text. -/
theorem mem_splitOn_iff {c : Char} {field s : Str} :
    field ∈ s.splitOn c ↔ c ∉ field ∧ ∃ before after, s = before ++ (field ++ after) ∧
      (before = [] ∨ ∃ front, before = front ++ [c]) ∧ (after = [] ∨ ∃ back, after = c :: back) := by
  constructor
  · intro hmem
    induction hlen : s.length using Nat.strong_induction_on generalizing s with
    | h n ih =>
      by_cases hc : c ∈ s
      · obtain ⟨front, back, rfl, hfront⟩ := List.eq_append_cons_of_mem hc
        rw [List.splitOn_append_cons_self_of_not_mem hfront, List.mem_cons] at hmem
        obtain rfl | hmem := hmem
        · exact ⟨hfront, [], c :: back, rfl, Or.inl rfl, Or.inr ⟨back, rfl⟩⟩
        · have hshort : back.length < n := by
            rw [← hlen, List.length_append, List.length_cons]
            omega
          obtain ⟨hfield, before, after, rfl, hbefore, hafter⟩ := ih _ hshort hmem rfl
          refine ⟨hfield, front ++ c :: before, after, by simp, Or.inr ?_, hafter⟩
          obtain rfl | ⟨start, rfl⟩ := hbefore
          · exact ⟨front, rfl⟩
          · exact ⟨front ++ c :: start, by simp⟩
      · rw [List.splitOn_eq_singleton hc, List.mem_singleton] at hmem
        subst hmem
        exact ⟨hc, [], [], by simp, Or.inl rfl, Or.inl rfl⟩
  · rintro ⟨hfield, before, after, rfl, hbefore, hafter⟩
    have hrest : field ∈ (field ++ after).splitOn c := by
      obtain rfl | ⟨back, rfl⟩ := hafter
      · rw [List.append_nil, List.splitOn_eq_singleton hfield]
        exact List.mem_singleton_self field
      · rw [List.splitOn_append_cons_self_of_not_mem hfield]
        exact List.mem_cons_self
    obtain rfl | ⟨front, rfl⟩ := hbefore
    · exact hrest
    · rw [List.append_assoc, List.singleton_append, List.splitOn_append_cons_self]
      exact List.mem_append_right _ hrest

end Base
