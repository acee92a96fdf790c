import WsKit.Base.Utf8
import Mathlib

/-!
# Form-encoded text

The left-to-right decoder of form data: `%` and two hexadecimal digits stand for the character
with that code, `+` for a space, and every other character, a `%` without two digits included,
for itself. A text has many encodings, since digits have two cases and a space two forms.
-/

namespace Base

/-- The value of a hexadecimal digit. -/
def hexDigitValue (c : Char) : Option ℕ :=
  if 48 ≤ c.toNat ∧ c.toNat ≤ 57 then some (c.toNat - 48)
  else if 65 ≤ c.toNat ∧ c.toNat ≤ 70 then some (c.toNat - 55)
  else if 97 ≤ c.toNat ∧ c.toNat ≤ 102 then some (c.toNat - 87)
  else none

/-- The character that two hexadecimal digits stand for. -/
def hexPair (h l : Char) : Option Char :=
  (hexDigitValue h).bind fun hv => (hexDigitValue l).map fun lv => Char.ofNat (hv * 16 + lv)

/-- Decode from the left. -/
def formDecode : Str → Str
  | [] => []
  | c :: s =>
    if c = '+' then ' ' :: formDecode s
    else if c = '%' then
      match s with
      | h :: l :: rest =>
        match hexPair h l with
        | some d => d :: formDecode rest
        | none => '%' :: formDecode (h :: l :: rest)
      | short => '%' :: formDecode short
    else c :: formDecode s

/-- The string begins with `%` and two hexadecimal digits. -/
def startsEscape : Str → Bool
  | c :: h :: l :: _ => c = '%' && (hexPair h l).isSome
  | _ => false

/-- Characters that are written as they are: letters, digits and `-._~`. -/
def isUnreserved (c : Char) : Bool := c.isAlphanum || c = '-' || c = '.' || c = '_' || c = '~'

/-- A character and a text that is written for it. -/
inductive FormEncodesChar : Char → Str → Prop where
  | unreserved {c : Char} (h : isUnreserved c = true) : FormEncodesChar c [c]
  | space : FormEncodesChar ' ' ['+']
  | escape {c h l : Char} (hc : isUnreserved c = false) (hascii : c.toNat < 128)
      (hpair : hexPair h l = some c) : FormEncodesChar c ['%', h, l]

/-- A text and one of its encodings, character by character. -/
inductive FormEncodes : Str → Str → Prop where
  | nil : FormEncodes [] []
  | cons {c : Char} {s e t : Str} (hc : FormEncodesChar c e) (hs : FormEncodes s t) :
      FormEncodes (c :: s) (e ++ t)

/-! ### Digits -/

/-- Hexadecimal digits are letters or digits. -/
theorem isUnreserved_of_hexDigitValue {c : Char} {v : ℕ} (h : hexDigitValue c = some v) :
    isUnreserved c = true := by
  have hrange : 48 ≤ c.toNat ∧ c.toNat ≤ 57 ∨ 65 ≤ c.toNat ∧ c.toNat ≤ 70 ∨
      97 ≤ c.toNat ∧ c.toNat ≤ 102 := by
    unfold hexDigitValue at h
    split at h
    · next hdigit => exact .inl hdigit
    · split at h
      · next hupper => exact .inr (.inl hupper)
      · split at h
        · next hlower => exact .inr (.inr hlower)
        · cases h
  simp only [isUnreserved, Char.isAlphanum, Char.isAlpha, Char.isUpper, Char.isLower, Char.isDigit,
    Bool.or_eq_true, Bool.and_eq_true, decide_eq_true_eq, ge_iff_le, UInt32.le_iff_toNat_le]
  simp only [Char.toNat] at hrange
  simp at hrange ⊢
  omega

/-- A pair that stands for a character consists of two digits. -/
theorem isUnreserved_of_hexPair {h l d : Char} (hpair : hexPair h l = some d) :
    isUnreserved h = true ∧ isUnreserved l = true := by
  obtain ⟨hv, hh, hmap⟩ := Option.bind_eq_some_iff.1 hpair
  obtain ⟨lv, hl, _⟩ := Option.map_eq_some_iff.1 hmap
  exact ⟨isUnreserved_of_hexDigitValue hh, isUnreserved_of_hexDigitValue hl⟩

/-- An unreserved character is neither `+` nor `%`. -/
theorem ne_of_isUnreserved {c : Char} (h : isUnreserved c = true) : c ≠ '+' ∧ c ≠ '%' := by
  constructor <;> rintro rfl <;> exact absurd h (by decide)

/-! ### Decoding, by what the text begins with -/

/-- A plus is a space. -/
@[simp] theorem formDecode_plus (s : Str) : formDecode ('+' :: s) = ' ' :: formDecode s := by
  rw [formDecode.eq_def]
  rfl

/-- An escape is the character with its code. -/
theorem formDecode_escape {h l d : Char} (hpair : hexPair h l = some d) (rest : Str) :
    formDecode ('%' :: h :: l :: rest) = d :: formDecode rest := by
  rw [formDecode.eq_def]
  simp only [hpair, if_neg (show '%' ≠ '+' by decide), if_pos]

/-- Whatever is neither a plus nor the beginning of an escape is copied. -/
theorem formDecode_copy {c : Char} {s : Str} (hplus : c ≠ '+')
    (hescape : startsEscape (c :: s) = false) : formDecode (c :: s) = c :: formDecode s := by
  rw [formDecode.eq_def]
  by_cases hpercent : c = '%'
  · subst hpercent
    match s with
    | [] => rfl
    | [_] => rfl
    | h :: l :: rest =>
      have hpair : hexPair h l = none := by simpa [startsEscape] using hescape
      simp only [if_neg hplus, if_pos, hpair]
  · simp only [if_neg hplus, if_neg hpercent]

/-- Only `%` begins an escape. -/
theorem startsEscape_of_ne {c : Char} (h : c ≠ '%') (s : Str) : startsEscape (c :: s) = false := by
  match s with
  | [] => rfl
  | [_] => rfl
  | _ :: _ :: _ => simp [startsEscape, h]

/-- An escape, spelled out. -/
theorem startsEscape_iff {s : Str} :
    startsEscape s = true ↔ ∃ h l d rest, s = '%' :: h :: l :: rest ∧ hexPair h l = some d := by
  constructor
  · intro hs
    match s with
    | [] => cases hs
    | [_] => cases hs
    | [_, _] => cases hs
    | c :: h :: l :: rest =>
      simp only [startsEscape, Bool.and_eq_true, decide_eq_true_eq, Option.isSome_iff_exists] at hs
      obtain ⟨rfl, d, hd⟩ := hs
      exact ⟨h, l, d, rest, rfl, hd⟩
  · rintro ⟨h, l, d, rest, rfl, hpair⟩
    simp [startsEscape, hpair]

/-- Unreserved characters are copied. -/
theorem formDecode_unreserved {c : Char} (h : isUnreserved c = true) (s : Str) :
    formDecode (c :: s) = c :: formDecode s :=
  formDecode_copy (ne_of_isUnreserved h).1 (startsEscape_of_ne (ne_of_isUnreserved h).2 s)

/-- An escape that follows a character shortens what is decoded from there. -/
theorem length_formDecode_of_startsEscape {c : Char} {s : Str}
    (h : startsEscape (c :: s) = true) :
    (formDecode (c :: s)).length + 1 = (formDecode s).length := by
  obtain ⟨h, l, d, rest, heq, hpair⟩ := startsEscape_iff.1 h
  obtain ⟨rfl, rfl⟩ := List.cons.inj heq
  obtain ⟨hh, hl⟩ := isUnreserved_of_hexPair hpair
  rw [formDecode_escape hpair, formDecode_unreserved hh, formDecode_unreserved hl]
  simp only [List.length_cons]

/-- One character more lengthens the decoded text by one at most. -/
theorem length_formDecode_cons_le (c : Char) (s : Str) :
    (formDecode (c :: s)).length ≤ (formDecode s).length + 1 := by
  by_cases hescape : startsEscape (c :: s) = true
  · have hshort := length_formDecode_of_startsEscape hescape
    omega
  · by_cases hplus : c = '+'
    · rw [hplus, formDecode_plus, List.length_cons]
    · rw [formDecode_copy hplus (Bool.not_eq_true _ ▸ hescape), List.length_cons]

/-! ### Round trip -/

/-- What is written for a character is read as that character. -/
theorem FormEncodesChar.formDecode_append {c : Char} {e : Str} (h : FormEncodesChar c e) (t : Str) :
    formDecode (e ++ t) = c :: formDecode t := by
  cases h with
  | unreserved hc => exact formDecode_unreserved hc t
  | space => exact formDecode_plus t
  | escape hc hascii hpair => exact formDecode_escape hpair t

/-- Decoding an encoding returns the text. -/
theorem FormEncodes.formDecode_eq {s e : Str} (h : FormEncodes s e) : formDecode e = s := by
  induction h with
  | nil => rfl
  | cons hc hs ih => rw [hc.formDecode_append, ih]

/-- An encoding is made of unreserved characters, pluses and percent signs. -/
theorem FormEncodes.mem {s e : Str} (h : FormEncodes s e) {c : Char} (hc : c ∈ e) :
    isUnreserved c = true ∨ c = '+' ∨ c = '%' := by
  induction h with
  | nil => cases hc
  | cons hchar hs ih =>
    rcases List.mem_append.1 hc with hmem | hmem
    · cases hchar with
      | unreserved hd =>
        rw [List.mem_singleton.1 hmem]
        exact .inl hd
      | space => exact .inr (.inl (List.mem_singleton.1 hmem))
      | escape hd hascii hpair =>
        obtain ⟨hh, hl⟩ := isUnreserved_of_hexPair hpair
        simp only [List.mem_cons, List.not_mem_nil, or_false] at hmem
        rcases hmem with rfl | rfl | rfl
        · exact .inr (.inr rfl)
        · exact .inl hh
        · exact .inl hl
    · exact ih hmem

end Base
