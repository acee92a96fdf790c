import WsKit.Base.FormData

/-!
# Decoding of parameters and cookies

`url_decode` of `src/extractor.rs` reads two characters after every `%`. When they are not two
hexadecimal digits it copies all three, so a plus or an escape among the two is not decoded.
This is its only difference from the left-to-right decoder.
-/

namespace WsKit

open Base

/-- The value of a hexadecimal digit. -/
def hexVal (c : Char) : Option ℕ :=
  if '0' ≤ c ∧ c ≤ '9' then some (c.toNat - '0'.toNat)
  else if 'a' ≤ c ∧ c ≤ 'f' then some (c.toNat - 'a'.toNat + 10)
  else if 'A' ≤ c ∧ c ≤ 'F' then some (c.toNat - 'A'.toNat + 10)
  else none

/-- Decode `+` and `%XX`. -/
def urlDecode : Str → Str
  | [] => []
  | c :: chars =>
    if c = '+' then ' ' :: urlDecode chars
    else if c = '%' then
      match chars with
      | h :: l :: rest =>
        match hexVal h, hexVal l with
        | some hv, some lv => Char.ofNat (hv * 16 + lv) :: urlDecode rest
        | _, _ => '%' :: h :: l :: urlDecode rest
      | [h] => ['%', h]
      | [] => ['%']
    else c :: urlDecode chars

/-- No plus and no escape begins among the two characters after a `%` that begins no escape. -/
def nothingHidden : Str → Bool
  | [] => true
  | c :: chars =>
    if c = '%' then
      match chars with
      | h :: l :: rest =>
        ((hexPair h l).isSome || (h ≠ '+' && l ≠ '+' && !startsEscape (h :: l :: rest) &&
          !startsEscape (l :: rest))) && nothingHidden rest
      | [h] => h ≠ '+'
      | [] => true
    else nothingHidden chars

/-- The digits are the usual ones. -/
theorem hexVal_eq (c : Char) : hexVal c = hexDigitValue c := by
  simp only [hexVal, hexDigitValue, Char.le_def, UInt32.le_iff_toNat_le]
  simp only [Char.toNat]
  simp
  split_ifs <;> first | rfl | omega | (congr 1; omega)

/-! ### Decoding, by what the text begins with -/

/-- A plus is a space. -/
theorem urlDecode_plus (s : Str) : urlDecode ('+' :: s) = ' ' :: urlDecode s := by
  rw [urlDecode.eq_def]
  rfl

/-- An escape is the character with its code. -/
theorem urlDecode_escape {h l d : Char} (hpair : hexPair h l = some d) (rest : Str) :
    urlDecode ('%' :: h :: l :: rest) = d :: urlDecode rest := by
  obtain ⟨hv, hh, hmap⟩ := Option.bind_eq_some_iff.1 hpair
  obtain ⟨lv, hl, rfl⟩ := Option.map_eq_some_iff.1 hmap
  rw [urlDecode.eq_def]
  simp only [hexVal_eq, hh, hl, if_neg (show '%' ≠ '+' by decide), if_pos]

/-- Two characters that are no digits are copied with the `%` before them. -/
theorem urlDecode_malformed {h l : Char} (hpair : hexPair h l = none) (rest : Str) :
    urlDecode ('%' :: h :: l :: rest) = '%' :: h :: l :: urlDecode rest := by
  rw [urlDecode.eq_def]
  simp only [hexVal_eq, if_neg (show '%' ≠ '+' by decide), if_pos]
  cases hh : hexDigitValue h with
  | none => rfl
  | some hv =>
    cases hl : hexDigitValue l with
    | none => rfl
    | some lv => simp [hexPair, hh, hl] at hpair

/-- Every other character is copied. -/
theorem urlDecode_copy {c : Char} (hplus : c ≠ '+') (hpercent : c ≠ '%') (s : Str) :
    urlDecode (c :: s) = c :: urlDecode s := by
  rw [urlDecode.eq_def]
  simp only [if_neg hplus, if_neg hpercent]

/-- Without two digits a `%` is copied by the left-to-right decoder, too. -/
theorem formDecode_malformed {h l : Char} (hpair : hexPair h l = none) (rest : Str) :
    formDecode ('%' :: h :: l :: rest) = '%' :: formDecode (h :: l :: rest) :=
  formDecode_copy (by decide) (by simp [startsEscape, hpair])

/-- Induction on what is read next. -/
@[elab_as_elim]
theorem read_induct {P : Str → Prop} (nil : P []) (plus : ∀ rest, P rest → P ('+' :: rest))
    (escape : ∀ h l d rest, hexPair h l = some d → P rest → P ('%' :: h :: l :: rest))
    (malformed : ∀ h l rest, hexPair h l = none → P rest → P ('%' :: h :: l :: rest))
    (cut : ∀ h, P ['%', h]) (last : P ['%'])
    (copy : ∀ c rest, c ≠ '+' → c ≠ '%' → P rest → P (c :: rest)) (s : Str) : P s := by
  induction s using urlDecode.induct with
  | case1 => exact nil
  | case2 rest ih => exact plus rest ih
  | case3 h l rest hv lv hl hh _ ih =>
    rw [hexVal_eq] at hh hl
    exact escape h l (Char.ofNat (hv * 16 + lv)) rest (by simp [hexPair, hh, hl]) ih
  | case4 h l rest hval _ ih =>
    refine malformed h l rest ?_ ih
    rw [Option.eq_none_iff_forall_ne_some]
    intro d hpair
    obtain ⟨hv, hh, hmap⟩ := Option.bind_eq_some_iff.1 hpair
    obtain ⟨lv, hl, _⟩ := Option.map_eq_some_iff.1 hmap
    exact hval hv lv (by rw [hexVal_eq, hh]) (by rw [hexVal_eq, hl])
  | case5 h _ => exact cut h
  | case6 _ => exact last
  | case7 c rest hplus hpercent ih => exact copy c rest hplus hpercent ih

/-- Only a `%` can hide what follows. -/
theorem nothingHidden_cons_of_ne {c : Char} (h : c ≠ '%') (s : Str) :
    nothingHidden (c :: s) = nothingHidden s := by
  rw [nothingHidden.eq_def]
  simp only [if_neg h]

/-! ### Agreement with the left-to-right decoder -/

/-- The left-to-right decoder decodes at least as much. -/
theorem length_formDecode_le (s : Str) : (formDecode s).length ≤ (urlDecode s).length := by
  induction s using read_induct with
  | nil => exact Nat.le_refl _
  | plus rest ih =>
    rw [formDecode_plus, urlDecode_plus, List.length_cons, List.length_cons]
    exact Nat.succ_le_succ ih
  | escape h l d rest hpair ih =>
    rw [formDecode_escape hpair, urlDecode_escape hpair, List.length_cons, List.length_cons]
    exact Nat.succ_le_succ ih
  | malformed h l rest hpair ih =>
    have hh := length_formDecode_cons_le h (l :: rest)
    have hl := length_formDecode_cons_le l rest
    rw [formDecode_malformed hpair, urlDecode_malformed hpair]
    simp only [List.length_cons]
    omega
  | cut h =>
    have hh := length_formDecode_cons_le h []
    rw [formDecode_copy (by decide) rfl]
    exact Nat.succ_le_succ hh
  | last => exact Nat.le_refl _
  | copy c rest hplus hpercent ih =>
    rw [formDecode_copy hplus (startsEscape_of_ne hpercent rest), urlDecode_copy hplus hpercent,
      List.length_cons, List.length_cons]
    exact Nat.succ_le_succ ih

/-- Two characters that hide nothing are copied by the left-to-right decoder. -/
theorem formDecode_cons_cons_of_clear {h l : Char} {rest : Str} (hh : h ≠ '+') (hl : l ≠ '+')
    (hhl : startsEscape (h :: l :: rest) = false) (hlr : startsEscape (l :: rest) = false) :
    formDecode (h :: l :: rest) = h :: l :: formDecode rest := by
  rw [formDecode_copy hh hhl, formDecode_copy hl hlr]

/-- Where nothing is hidden, the two decoders agree. -/
theorem urlDecode_of_nothingHidden {s : Str} (h : nothingHidden s = true) :
    urlDecode s = formDecode s := by
  induction s using read_induct with
  | nil => rfl
  | plus rest ih =>
    rw [nothingHidden_cons_of_ne (by decide)] at h
    rw [urlDecode_plus, formDecode_plus, ih h]
  | escape h' l d rest hpair ih =>
    have hrest : nothingHidden rest = true := by
      simp only [nothingHidden, if_pos, Bool.and_eq_true] at h
      exact h.2
    rw [urlDecode_escape hpair, formDecode_escape hpair, ih hrest]
  | malformed h' l rest hpair ih =>
    simp [nothingHidden, hpair] at h
    obtain ⟨⟨⟨⟨hh, hl⟩, hhl⟩, hlr⟩, hrest⟩ := h
    rw [urlDecode_malformed hpair, formDecode_malformed hpair,
      formDecode_cons_cons_of_clear hh hl hhl hlr, ih hrest]
  | cut c =>
    have hplus : c ≠ '+' := by simpa [nothingHidden] using h
    rw [formDecode_copy (by decide) rfl, formDecode_copy hplus rfl]
    rfl
  | last => rfl
  | copy c rest hplus hpercent ih =>
    rw [nothingHidden_cons_of_ne hpercent] at h
    rw [urlDecode_copy hplus hpercent, formDecode_copy hplus (startsEscape_of_ne hpercent rest),
      ih h]

/-- When two copied characters agree with what the left-to-right decoder makes of them, they hide
nothing: a plus would read differently, and an escape would leave less text. -/
theorem clear_of_formDecode_eq {h l : Char} {rest : Str}
    (heq : h :: l :: urlDecode rest = formDecode (h :: l :: rest)) :
    h ≠ '+' ∧ l ≠ '+' ∧ startsEscape (h :: l :: rest) = false ∧ startsEscape (l :: rest) = false := by
  have hle := length_formDecode_le rest
  have hlength := congrArg List.length heq
  simp only [List.length_cons] at hlength
  have hh : h ≠ '+' := by
    rintro rfl
    rw [formDecode_plus] at heq
    exact absurd (List.cons.inj heq).1 (by decide)
  have hhl : startsEscape (h :: l :: rest) = false := by
    by_contra hescape
    have hshort := length_formDecode_of_startsEscape (Bool.not_eq_false _ ▸ hescape)
    have hcons := length_formDecode_cons_le l rest
    omega
  rw [formDecode_copy hh hhl] at heq hlength
  have hl : l ≠ '+' := by
    rintro rfl
    rw [formDecode_plus] at heq
    exact absurd (List.cons.inj (List.cons.inj heq).2).1 (by decide)
  refine ⟨hh, hl, hhl, ?_⟩
  by_contra hescape
  have hshort := length_formDecode_of_startsEscape (Bool.not_eq_false _ ▸ hescape)
  rw [List.length_cons] at hlength
  omega

/-- Where the two decoders agree, nothing is hidden. -/
theorem nothingHidden_of_urlDecode_eq {s : Str} (heq : urlDecode s = formDecode s) :
    nothingHidden s = true := by
  induction s using read_induct with
  | nil => rfl
  | plus rest ih =>
    rw [urlDecode_plus, formDecode_plus] at heq
    rw [nothingHidden_cons_of_ne (by decide)]
    exact ih (List.cons.inj heq).2
  | escape h l d rest hpair ih =>
    rw [urlDecode_escape hpair, formDecode_escape hpair] at heq
    simp [nothingHidden, hpair, ih (List.cons.inj heq).2]
  | malformed h l rest hpair ih =>
    rw [urlDecode_malformed hpair, formDecode_malformed hpair] at heq
    have htail := (List.cons.inj heq).2
    obtain ⟨hh, hl, hhl, hlr⟩ := clear_of_formDecode_eq htail
    rw [formDecode_cons_cons_of_clear hh hl hhl hlr] at htail
    have hrest := ih (List.cons.inj (List.cons.inj htail).2).2
    simp [nothingHidden, hpair, hh, hl, hhl, hlr, hrest]
  | cut c =>
    have hplus : c ≠ '+' := by
      rintro rfl
      exact absurd heq (by decide)
    simp [nothingHidden, hplus]
  | last => rfl
  | copy c rest hplus hpercent ih =>
    rw [urlDecode_copy hplus hpercent,
      formDecode_copy hplus (startsEscape_of_ne hpercent rest)] at heq
    rw [nothingHidden_cons_of_ne hpercent]
    exact ih (List.cons.inj heq).2

/-- The decoder agrees with the left-to-right one on a text exactly when no malformed escape of
the text hides a plus or an escape. -/
theorem urlDecode_eq_formDecode_iff (s : Str) :
    urlDecode s = formDecode s ↔ nothingHidden s = true :=
  ⟨nothingHidden_of_urlDecode_eq, urlDecode_of_nothingHidden⟩

/-- A percent sign before a plus keeps the plus. -/
theorem urlDecode_percentPlus :
    ¬ ∀ s : Str, (∀ c ∈ s, c.toNat < 128) → urlDecode s = formDecode s := by
  intro h
  have hascii : ∀ c ∈ ['%', '+', 'a'], c.toNat < 128 := by
    intro c hc
    simp only [List.mem_cons, List.not_mem_nil, or_false] at hc
    rcases hc with rfl | rfl | rfl <;> decide
  exact absurd (h ['%', '+', 'a'] hascii) (by decide)

end WsKit
