import WsKit.Base.Utf8
import Mathlib.Algebra.Ring.Nat
import Mathlib.Data.List.DropRight

/-!
# String operations with byte offsets

The standard-library string operations a parser uses, on scalar-value lists: trimming,
stripping a prefix, splitting at the first occurrence of a pattern, searching for a byte
offset and slicing at one. A slice at an offset that is out of range or inside a character
has no result, as the indexing it models panics.
-/

namespace Base

/-- The `White_Space` property of a scalar value. -/
def isWhitespace (c : Char) : Bool :=
  (9 ≤ c.toNat && c.toNat ≤ 13) || c.toNat == 0x20 || c.toNat == 0x85 || c.toNat == 0xA0 ||
    c.toNat == 0x1680 || (0x2000 ≤ c.toNat && c.toNat ≤ 0x200A) || c.toNat == 0x2028 ||
    c.toNat == 0x2029 || c.toNat == 0x202F || c.toNat == 0x205F || c.toNat == 0x3000

/-- Drop leading and trailing white space. -/
def trim (s : Str) : Str := (s.dropWhile isWhitespace).rdropWhile isWhitespace

/-- The part after a literal prefix, when the string starts with it. -/
def stripPrefix (pat s : Str) : Option Str :=
  if pat.isPrefixOf s then some (s.drop pat.length) else none

/-- Split around the first occurrence of a pattern. -/
def splitOnce (pat : Str) : Str → Option (Str × Str)
  | [] => if pat = [] then some ([], []) else none
  | c :: s =>
    match stripPrefix pat (c :: s) with
    | some rest => some ([], rest)
    | none => (splitOnce pat s).map fun parts => (c :: parts.1, parts.2)

/-- Byte offset of the first occurrence of a character. -/
def find (target : Char) : Str → Option ℕ
  | [] => none
  | c :: s => if c = target then some 0 else (find target s).map (c.utf8Size + ·)

/-- Split at a byte offset, absent when the offset is not a character boundary of the string. -/
def splitAtByte : Str → ℕ → Option (Str × Str)
  | s, 0 => some ([], s)
  | [], _ + 1 => none
  | c :: s, n + 1 =>
    if c.utf8Size ≤ n + 1 then
      (splitAtByte s (n + 1 - c.utf8Size)).map fun parts => (c :: parts.1, parts.2)
    else none

/-- The slice `s[..n]`. -/
def sliceTo (s : Str) (n : ℕ) : Option Str := (splitAtByte s n).map Prod.fst

/-- The slice `s[n..]`. -/
def sliceFrom (s : Str) (n : ℕ) : Option Str := (splitAtByte s n).map Prod.snd

/-- Length in bytes. -/
def byteLen (s : Str) : ℕ := (s.map Char.utf8Size).sum

/-- Printable ASCII is not white space. -/
theorem isWhitespace_of_graphic {c : Char} (h : 33 ≤ c.toNat ∧ c.toNat ≤ 126) : isWhitespace c = false := by
  simp only [isWhitespace, Bool.or_eq_false_iff, Bool.and_eq_false_iff, decide_eq_false_iff_not,
    beq_eq_false_iff_ne]
  omega

/-- Nothing is dropped from the end exactly if the last element is to stay. -/
theorem rdropWhile_eq_self_iff {α : Type*} {p : α → Bool} {xs : List α} :
    xs.rdropWhile p = xs ↔ ∀ x ∈ xs.getLast?, p x = false := by
  rw [List.rdropWhile_eq_self_iff]
  constructor
  · intro h x hx
    obtain ⟨hne, rfl⟩ := List.mem_getLast?_eq_getLast hx
    exact Bool.eq_false_iff.2 (h hne)
  · intro h hne
    exact Bool.eq_false_iff.1 (h _ (List.getLast?_eq_some_getLast hne))

/-- A string that begins and ends outside white space is not trimmed. -/
theorem trim_eq_self {s : Str} (hhead : ∀ c ∈ s.head?, isWhitespace c = false)
    (hlast : ∀ c ∈ s.getLast?, isWhitespace c = false) : trim s = s := by
  have hd : s.dropWhile isWhitespace = s := by
    cases s with
    | nil => rfl
    | cons c s =>
      have hc : ¬ isWhitespace c = true := by
        rw [hhead c (by simp)]
        decide
      rw [List.dropWhile_cons_of_neg hc]
  rw [trim, hd, rdropWhile_eq_self_iff]
  exact hlast

/-- Neither end of a string is white space. -/
structure Trimmed (s : Str) : Prop where
  head : ∀ c ∈ s.head?, isWhitespace c = false
  last : ∀ c ∈ s.getLast?, isWhitespace c = false

/-- Only what follows the last element to stay is dropped. -/
theorem rdropWhile_append_of_last {α : Type*} {p : α → Bool} {xs : List α} {x : α}
    (hlast : xs.getLast? = some x) (hx : p x = false) (ys : List α) :
    (xs ++ ys).rdropWhile p = xs ++ ys.rdropWhile p := by
  obtain ⟨rest, rfl⟩ := List.getLast?_eq_some_iff.1 hlast
  have hfirst : ((rest ++ [x]).reverse).dropWhile p = (rest ++ [x]).reverse := by
    rw [List.reverse_append, List.reverse_singleton, List.singleton_append,
      List.dropWhile_cons_of_neg (by simp [hx])]
  rw [List.rdropWhile, List.rdropWhile, List.reverse_append, List.dropWhile_append, hfirst]
  split
  · next hempty => rw [List.isEmpty_iff.1 hempty, List.reverse_reverse, List.reverse_nil, List.append_nil]
  · rw [List.reverse_append, List.reverse_reverse]

/-- White space behind a string is dropped. -/
theorem rdropWhile_append_of_forall {α : Type*} {p : α → Bool} {ys : List α}
    (h : ∀ y ∈ ys, p y = true) (xs : List α) : (xs ++ ys).rdropWhile p = xs.rdropWhile p := by
  rw [List.rdropWhile, List.reverse_append, List.dropWhile_append_of_pos, List.rdropWhile]
  exact fun y hmem => h y (List.mem_reverse.1 hmem)

/-- Trimming leaves no white space at the ends. -/
theorem trimmed_trim (s : Str) : Trimmed (trim s) := by
  refine ⟨fun c hc => ?_, fun c hc => ?_⟩
  · obtain ⟨rest, hrest⟩ := List.head?_eq_some_iff.1 hc
    have hprefix : trim s <+: s.dropWhile isWhitespace := List.rdropWhile_prefix _ _
    rw [hrest] at hprefix
    obtain ⟨tail, htail⟩ := hprefix
    have hfirst := List.head?_dropWhile_not isWhitespace s
    rw [← htail] at hfirst
    exact hfirst
  · have hkept : (trim s).rdropWhile isWhitespace = trim s := List.rdropWhile_idempotent _ _
    exact rdropWhile_eq_self_iff.1 hkept c hc

/-- A string that trimming leaves alone has no white space at its ends. -/
theorem trim_eq_self_iff {s : Str} : trim s = s ↔ Trimmed s :=
  ⟨fun h => h ▸ trimmed_trim s, fun h => trim_eq_self h.head h.last⟩

/-- Behind a part that stands, only the rest is trimmed. -/
theorem trim_append {s : Str} {c : Char} (hhead : ∀ c ∈ s.head?, isWhitespace c = false)
    (hlast : s.getLast? = some c) (hc : isWhitespace c = false) (t : Str) :
    trim (s ++ t) = s ++ t.rdropWhile isWhitespace := by
  have hstart : (s ++ t).dropWhile isWhitespace = s ++ t := by
    cases s with
    | nil => cases hlast
    | cons d s => exact List.dropWhile_cons_of_neg (by simp [hhead d rfl])
  rw [trim, hstart, rdropWhile_append_of_last hlast hc]

/-- Trimming finds what stands between white space. -/
theorem trim_eq_iff {s t : Str} (ht : t ≠ []) :
    trim s = t ↔ Trimmed t ∧ ∃ before after, s = before ++ (t ++ after) ∧
      (∀ c ∈ before, isWhitespace c = true) ∧ ∀ c ∈ after, isWhitespace c = true := by
  constructor
  · rintro rfl
    refine ⟨trimmed_trim s, s.takeWhile isWhitespace,
      (s.dropWhile isWhitespace).rtakeWhile isWhitespace, ?_, ?_, ?_⟩
    · rw [trim, List.rdropWhile_append_rtakeWhile, List.takeWhile_append_dropWhile]
    · exact fun c hc => List.mem_takeWhile_imp hc
    · exact fun c hc => List.mem_rtakeWhile_imp hc
  · rintro ⟨hends, before, after, rfl, hbefore, hafter⟩
    have hstart : (t ++ after).dropWhile isWhitespace = t ++ after := by
      cases t with
      | nil => exact (ht rfl).elim
      | cons d t => exact List.dropWhile_cons_of_neg (by simp [hends.head d rfl])
    rw [trim, List.dropWhile_append_of_pos hbefore, hstart, rdropWhile_append_of_forall hafter,
      rdropWhile_eq_self_iff]
    exact hends.last

/-- Stripping succeeds exactly when the pattern is followed by the result. -/
theorem stripPrefix_eq_some_iff {pat s rest : Str} :
    stripPrefix pat s = some rest ↔ s = pat ++ rest := by
  constructor
  · intro h
    simp only [stripPrefix, Option.ite_none_right_eq_some, Option.some.injEq,
      List.isPrefixOf_iff_prefix] at h
    obtain ⟨⟨t, rfl⟩, hrest⟩ := h
    rw [List.drop_left] at hrest
    rw [hrest]
  · rintro rfl
    simp [stripPrefix]

/-- Stripping fails exactly when the string does not begin with the pattern. -/
theorem stripPrefix_eq_none_iff {pat s : Str} : stripPrefix pat s = none ↔ ¬ pat <+: s := by
  simp [stripPrefix]

/-- Stripping a prefix that was just prepended restores the string. -/
@[simp] theorem stripPrefix_append (pat rest : Str) : stripPrefix pat (pat ++ rest) = some rest :=
  stripPrefix_eq_some_iff.mpr rfl

/-- Both parts of a split, rejoined around the pattern, are the original string. -/
theorem splitOnce_eq_append {pat s left right : Str} (h : splitOnce pat s = some (left, right)) :
    s = left ++ pat ++ right := by
  induction s generalizing left with
  | nil =>
    simp only [splitOnce, Option.ite_none_right_eq_some, Option.some.injEq, Prod.mk.injEq] at h
    obtain ⟨rfl, rfl, rfl⟩ := h
    rfl
  | cons c s ih =>
    rw [splitOnce] at h
    cases hs : stripPrefix pat (c :: s) with
    | some rest =>
      simp only [hs, Option.some.injEq, Prod.mk.injEq] at h
      obtain ⟨rfl, rfl⟩ := h
      simpa using stripPrefix_eq_some_iff.mp hs
    | none =>
      simp only [hs, Option.map_eq_some_iff, Prod.mk.injEq, Prod.exists] at h
      obtain ⟨l, r, hlr, rfl, rfl⟩ := h
      rw [ih hlr]
      simp

/-- A string is split exactly when the pattern occurs in it. -/
theorem splitOnce_eq_none_iff {pat s : Str} : splitOnce pat s = none ↔ ¬ pat <:+: s := by
  induction s with
  | nil => simp [splitOnce]
  | cons c s ih =>
    rw [splitOnce, List.infix_cons_iff]
    cases hs : stripPrefix pat (c :: s) with
    | some rest => simp [stripPrefix_eq_some_iff.mp hs]
    | none =>
      have hp : ¬ pat <+: c :: s := by
        rintro ⟨t, ht⟩
        rw [← ht, stripPrefix_append] at hs
        cases hs
      simp [hp, ih]

/-- Where the first occurrence lies does not depend on what follows it. -/
theorem splitOnce_append_congr {pat left right : Str}
    (h : splitOnce pat (left ++ pat ++ right) = some (left, right)) (tail : Str) :
    splitOnce pat (left ++ pat ++ tail) = some (left, tail) := by
  induction left with
  | nil =>
    cases pat with
    | nil => cases tail <;> simp [splitOnce, stripPrefix]
    | cons p pat =>
      have hs : stripPrefix (p :: pat) (p :: (pat ++ tail)) = some tail :=
        stripPrefix_eq_some_iff.mpr rfl
      simp only [List.nil_append, List.cons_append, splitOnce, hs]
  | cons c left ih =>
    simp only [List.cons_append, splitOnce] at h ⊢
    cases hs : stripPrefix pat (c :: (left ++ pat ++ right)) with
    | some rest =>
      rw [hs] at h
      simp at h
    | none =>
      -- the pattern is no longer than the part of the string both sides share
      have ht : stripPrefix pat (c :: (left ++ pat ++ tail)) = none := by
        rw [Option.eq_none_iff_forall_not_mem] at hs ⊢
        intro rest hrest
        have hp : pat <+: c :: (left ++ pat) := by
          have hshared : c :: (left ++ pat) <+: c :: (left ++ pat ++ tail) := ⟨tail, by simp⟩
          exact List.prefix_of_prefix_length_le ⟨rest, (stripPrefix_eq_some_iff.mp hrest).symm⟩
            hshared (by simp; omega)
        obtain ⟨t, ht⟩ := hp
        exact hs (t ++ right) (stripPrefix_eq_some_iff.mpr (by
          rw [← List.append_assoc, ht]
          simp))
      simp only [hs, Option.map_eq_some_iff, Prod.mk.injEq, List.cons.injEq, true_and,
        Prod.exists] at h
      obtain ⟨l, r, hlr, rfl, rfl⟩ := h
      simp only [ht, ih hlr, Option.map_some]

/-- A pattern whose first character is absent from the left part splits exactly there. -/
theorem splitOnce_of_notMem {p : Char} (pat : Str) {left : Str} (right : Str) (h : p ∉ left) :
    splitOnce (p :: pat) (left ++ (p :: pat) ++ right) = some (left, right) := by
  induction left with
  | nil =>
    have hs : stripPrefix (p :: pat) (p :: (pat ++ right)) = some right :=
      stripPrefix_eq_some_iff.mpr rfl
    simp only [List.nil_append, List.cons_append, splitOnce, hs]
  | cons c left ih =>
    rw [List.mem_cons, not_or] at h
    have hs : stripPrefix (p :: pat) (c :: (left ++ (p :: pat) ++ right)) = none := by
      rw [Option.eq_none_iff_forall_not_mem]
      intro rest hrest
      exact h.1 (List.cons.inj (stripPrefix_eq_some_iff.mp hrest)).1.symm
    simp only [List.cons_append] at hs ⊢
    rw [splitOnce, hs]
    simp only [List.append_assoc, List.cons_append] at ih
    simp [ih h.2]

/-- Texts cut at the first occurrence of one character are equal only part by part. -/
theorem append_cons_inj_of_notMem {p : Char} {left left' right right' : Str} (hl : p ∉ left)
    (hr : p ∉ left') (h : left ++ p :: right = left' ++ p :: right') :
    left = left' ∧ right = right' := by
  have hsl := splitOnce_of_notMem [] right hl
  have hsr := splitOnce_of_notMem [] right' hr
  simp only [List.append_assoc, List.singleton_append] at hsl hsr
  rw [h, hsr, Option.some.injEq, Prod.mk.injEq] at hsl
  exact ⟨hsl.1.symm, hsl.2.symm⟩

/-- The left part of a split at one character does not contain it. -/
theorem notMem_of_splitOnce_singleton {p : Char} {s left right : Str}
    (h : splitOnce [p] s = some (left, right)) : p ∉ left := by
  induction s generalizing left with
  | nil => simp [splitOnce] at h
  | cons c s ih =>
    rw [splitOnce] at h
    cases hs : stripPrefix [p] (c :: s) with
    | some rest =>
      simp only [hs, Option.some.injEq, Prod.mk.injEq] at h
      simp [← h.1]
    | none =>
      simp only [hs, Option.map_eq_some_iff, Prod.mk.injEq, Prod.exists] at h
      obtain ⟨l, r, hlr, rfl, rfl⟩ := h
      have hc : p ≠ c := by
        rintro rfl
        simp [stripPrefix] at hs
      simp [hc, ih hlr]

@[simp] theorem byteLen_cons (c : Char) (s : Str) : byteLen (c :: s) = c.utf8Size + byteLen s := by
  simp [byteLen]

@[simp] theorem byteLen_append (s t : Str) : byteLen (s ++ t) = byteLen s + byteLen t := by
  simp [byteLen]

/-- The byte length is the length of the encoding. -/
theorem length_utf8 (s : Str) : (utf8 s).length = byteLen s := by
  induction s with
  | nil => rfl
  | cons c s ih =>
    rw [byteLen_cons, ← ih]
    simp [utf8]

/-- The byte length of a leading part is a character boundary, and slices exactly there. -/
theorem splitAtByte_byteLen (s t : Str) : splitAtByte (s ++ t) (byteLen s) = some (s, t) := by
  induction s with
  | nil => cases t <;> rfl
  | cons c s ih =>
    have hc := c.utf8Size_pos
    obtain ⟨n, hn⟩ : ∃ n, c.utf8Size + byteLen s = n + 1 := ⟨c.utf8Size + byteLen s - 1, by omega⟩
    have hle : c.utf8Size ≤ n + 1 := by omega
    have hsub : n + 1 - c.utf8Size = byteLen s := by omega
    rw [byteLen_cons, hn, List.cons_append, splitAtByte, if_pos hle, hsub, ih]
    rfl

/-- The slice up to the end of a leading part is that part. -/
@[simp] theorem sliceTo_byteLen (s t : Str) : sliceTo (s ++ t) (byteLen s) = some s := by
  rw [sliceTo, splitAtByte_byteLen]
  rfl

/-- The slice from the end of a leading part is the remainder. -/
@[simp] theorem sliceFrom_byteLen (s t : Str) : sliceFrom (s ++ t) (byteLen s) = some t := by
  rw [sliceFrom, splitAtByte_byteLen]
  rfl

/-- A found offset is the byte length of the text before the first occurrence. -/
theorem find_eq_some_iff {target : Char} {s : Str} {n : ℕ} :
    find target s = some n ↔
      ∃ left right, s = left ++ target :: right ∧ target ∉ left ∧ byteLen left = n := by
  induction s generalizing n with
  | nil => simp [find]
  | cons c s ih =>
    rw [find]
    by_cases hc : c = target
    · rw [if_pos hc, Option.some.injEq]
      constructor
      · rintro rfl
        exact ⟨[], s, by simp [hc], by simp, rfl⟩
      · rintro ⟨left, right, heq, hmem, rfl⟩
        cases left with
        | nil => rfl
        | cons d left =>
          rw [List.cons_append, List.cons.injEq] at heq
          exact (hmem (by simp [← heq.1, hc])).elim
    · rw [if_neg hc, Option.map_eq_some_iff]
      constructor
      · rintro ⟨k, hk, rfl⟩
        obtain ⟨left, right, rfl, hmem, rfl⟩ := ih.mp hk
        exact ⟨c :: left, right, rfl, by simp [Ne.symm hc, hmem], byteLen_cons c left⟩
      · rintro ⟨left, right, heq, hmem, rfl⟩
        cases left with
        | nil =>
          rw [List.nil_append, List.cons.injEq] at heq
          exact (hc heq.1).elim
        | cons d left =>
          rw [List.cons_append, List.cons.injEq] at heq
          obtain ⟨rfl, rfl⟩ := heq
          rw [List.mem_cons, not_or] at hmem
          exact ⟨byteLen left, ih.mpr ⟨left, right, rfl, hmem.2, rfl⟩, (byteLen_cons c left).symm⟩

/-- Nothing is found exactly when the character does not occur. -/
theorem find_eq_none_iff {target : Char} {s : Str} : find target s = none ↔ target ∉ s := by
  induction s with
  | nil => simp [find]
  | cons c s ih =>
    by_cases hc : c = target
    · simp [find, hc]
    · simp [find, hc, ih, Ne.symm hc]

end Base
