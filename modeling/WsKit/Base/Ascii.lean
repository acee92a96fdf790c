import Mathlib
import WsKit.Base.Str

/-!
# ASCII case folding

Folding changes letters to letters, so it moves no separator: a pattern without letters
occurs in the folded string exactly where it occurs in the original.
-/

namespace Base

/-- ASCII letters in lower case, every other scalar value unchanged. -/
def toAsciiLowercase (s : Str) : Str := s.map Char.toLower

/-- Characters that folding neither changes nor produces: everything but the ASCII letters. -/
def Caseless (c : Char) : Prop := c.isAlpha = false

@[simp] theorem toAsciiLowercase_nil : toAsciiLowercase [] = [] := rfl

@[simp] theorem toAsciiLowercase_cons (c : Char) (s : Str) :
    toAsciiLowercase (c :: s) = c.toLower :: toAsciiLowercase s := rfl

@[simp] theorem toAsciiLowercase_append (s t : Str) :
    toAsciiLowercase (s ++ t) = toAsciiLowercase s ++ toAsciiLowercase t :=
  List.map_append

@[simp] theorem toAsciiLowercase_eq_nil_iff {s : Str} : toAsciiLowercase s = [] ↔ s = [] :=
  List.map_eq_nil_iff

/-- Letters lie between `A` and `z`. -/
theorem toNat_of_isAlpha {c : Char} (h : c.isAlpha = true) : 65 ≤ c.toNat ∧ c.toNat ≤ 122 := by
  simp only [Char.isAlpha, Char.isUpper, Char.isLower, Bool.or_eq_true, Bool.and_eq_true,
    decide_eq_true_eq, ge_iff_le, UInt32.le_iff_toNat_le] at h
  simp at h
  omega

/-- Folding a letter gives a letter, so only a caseless character folds to itself or to one. -/
theorem toLower_eq_iff_of_caseless {c d : Char} (hd : Caseless d) : c.toLower = d ↔ c = d := by
  have hkept : ∀ e : Char, Caseless e → e.toLower = e := fun e he =>
    Char.toLower_eq_of_not_isUpper fun hupper => by simp [Caseless, Char.isAlpha, hupper] at he
  constructor
  · rintro rfl
    rw [Caseless, Char.isAlpha_toLower_eq_isAlpha] at hd
    exact (hkept c hd).symm
  · rintro rfl
    exact hkept c hd

/-- Folding keeps a caseless character where it is. -/
theorem toLower_of_caseless {d : Char} (hd : Caseless d) : d.toLower = d :=
  (toLower_eq_iff_of_caseless hd).mpr rfl

/-- A caseless character occurs in the folded string exactly when it occurs in the original. -/
theorem mem_toAsciiLowercase {d : Char} (hd : Caseless d) {s : Str} :
    d ∈ toAsciiLowercase s ↔ d ∈ s := by
  simp only [toAsciiLowercase, List.mem_map, toLower_eq_iff_of_caseless hd, exists_eq_right]

/-- Folding a caseless string leaves it as it is. -/
theorem toAsciiLowercase_of_caseless {s : Str} (hs : ∀ c ∈ s, Caseless c) : toAsciiLowercase s = s := by
  induction s with
  | nil => rfl
  | cons c s ih =>
    rw [toAsciiLowercase_cons, toLower_of_caseless (hs c List.mem_cons_self),
      ih fun d hd => hs d (List.mem_cons_of_mem c hd)]

/-- A text folds to one that begins with a caseless character exactly if it begins with it. -/
theorem toAsciiLowercase_eq_cons_iff {d : Char} (hd : Caseless d) {s t : Str} :
    toAsciiLowercase s = d :: t ↔ ∃ rest, s = d :: rest ∧ toAsciiLowercase rest = t := by
  cases s with
  | nil => simp
  | cons c s =>
    simp only [toAsciiLowercase_cons, List.cons.injEq, toLower_eq_iff_of_caseless hd]
    exact ⟨fun h => ⟨s, ⟨h.1, rfl⟩, h.2⟩, fun ⟨rest, ⟨hc, hs⟩, ht⟩ => ⟨hc, hs ▸ ht⟩⟩

/-- Folding a folded text changes nothing. -/
theorem toAsciiLowercase_idempotent (s : Str) :
    toAsciiLowercase (toAsciiLowercase s) = toAsciiLowercase s := by
  rw [toAsciiLowercase, toAsciiLowercase, List.map_map]
  exact List.map_congr_left fun c _ => Char.toLower_toLower_eq_toLower c

/-- Folding moves no character into white space or out of it. -/
theorem isWhitespace_toLower (c : Char) : isWhitespace c.toLower = isWhitespace c := by
  by_cases hc : Caseless c
  · rw [toLower_of_caseless hc]
  · have hletter : ∀ d : Char, d.isAlpha = true → isWhitespace d = false := by
      intro d hd
      have hbounds := toNat_of_isAlpha hd
      exact isWhitespace_of_graphic ⟨by omega, by omega⟩
    have halpha : c.isAlpha = true := (Bool.not_eq_false _).mp hc
    rw [hletter c halpha, hletter c.toLower (by rw [Char.isAlpha_toLower_eq_isAlpha, halpha])]

/-- Trimming commutes with folding. -/
theorem trim_toAsciiLowercase (s : Str) : trim (toAsciiLowercase s) = toAsciiLowercase (trim s) := by
  have hspace : isWhitespace ∘ Char.toLower = isWhitespace := funext isWhitespace_toLower
  rw [trim, toAsciiLowercase, List.dropWhile_map, hspace, List.rdropWhile, ← List.map_reverse,
    List.dropWhile_map, hspace, ← List.map_reverse]
  rfl

/-- A trimmed text stays trimmed when it is folded. -/
theorem trim_toAsciiLowercase_trim (s : Str) :
    trim (toAsciiLowercase (trim s)) = toAsciiLowercase (trim s) := by
  rw [trim_toAsciiLowercase, trim_eq_self_iff.2 (trimmed_trim s)]

/-- A caseless pattern is a prefix of the folded string exactly when it is one of the original. -/
theorem prefix_toAsciiLowercase {pat s : Str} (hpat : ∀ c ∈ pat, Caseless c) :
    pat <+: toAsciiLowercase s ↔ pat <+: s := by
  induction pat generalizing s with
  | nil => simp
  | cons p pat ih =>
    cases s with
    | nil => simp
    | cons c s =>
      rw [toAsciiLowercase_cons, List.cons_prefix_cons, List.cons_prefix_cons,
        ih fun d hd => hpat d (List.mem_cons_of_mem p hd),
        eq_comm, toLower_eq_iff_of_caseless (hpat p List.mem_cons_self), eq_comm]

/-- Stripping a caseless prefix commutes with folding. -/
theorem stripPrefix_toAsciiLowercase {pat : Str} (hpat : ∀ c ∈ pat, Caseless c) (s : Str) :
    stripPrefix pat (toAsciiLowercase s) = (stripPrefix pat s).map toAsciiLowercase := by
  simp only [stripPrefix, List.isPrefixOf_iff_prefix, prefix_toAsciiLowercase hpat]
  split <;> simp [toAsciiLowercase, List.map_drop]

/-- Splitting at a caseless pattern commutes with folding both parts. -/
theorem splitOnce_toAsciiLowercase {pat : Str} (hpat : ∀ c ∈ pat, Caseless c) (s : Str) :
    splitOnce pat (toAsciiLowercase s) =
      (splitOnce pat s).map fun parts => (toAsciiLowercase parts.1, toAsciiLowercase parts.2) := by
  induction s with
  | nil =>
    by_cases h : pat = [] <;> simp [splitOnce, h]
  | cons c s ih =>
    have hs := stripPrefix_toAsciiLowercase hpat (c :: s)
    rw [toAsciiLowercase_cons] at hs ⊢
    rw [splitOnce, splitOnce, hs]
    cases stripPrefix pat (c :: s) with
    | some rest => rfl
    | none => simp [ih, Function.comp_def]

end Base
