import WsKit.Base.Str

/-!
# Unsigned decimal numbers

Parsing follows the standard library's unsigned `from_str`: an optional `+`, then one or
more ASCII digits, leading zeros included, failing as soon as the value is out of range.
Printing writes no leading zeros, and parsing a printed number returns it.
-/

namespace Base

/-- The value of an ASCII decimal digit. -/
def digitValue (c : Char) : Option ℕ := if c.isDigit then some (c.toNat - 48) else none

/-- Accumulate decimal digits, failing at a non-digit and as soon as the value exceeds `limit`. -/
def parseDigits (limit : ℕ) : ℕ → Str → Option ℕ
  | acc, [] => some acc
  | acc, c :: s =>
    (digitValue c).bind fun d =>
      if acc * 10 + d ≤ limit then parseDigits limit (acc * 10 + d) s else none

/-- Parse an unsigned decimal bounded by `limit`: an optional `+`, then at least one digit. -/
def parseUnsigned (limit : ℕ) (s : Str) : Option ℕ :=
  match s with
  | [] => none
  | c :: rest =>
    if c = '+' then
      if rest = [] then none else parseDigits limit 0 rest
    else parseDigits limit 0 (c :: rest)

/-- Parse a `u16`. -/
def parseU16 (s : Str) : Option ℕ := parseUnsigned 65535 s

/-- The decimal text of a number, without leading zeros. -/
def decimal (n : ℕ) : Str := Nat.toDigits 10 n

/-- Parsing consumes a concatenation part by part. -/
theorem parseDigits_append (limit acc : ℕ) (s t : Str) :
    parseDigits limit acc (s ++ t) = (parseDigits limit acc s).bind fun v => parseDigits limit v t := by
  induction s generalizing acc with
  | nil => rfl
  | cons c s ih =>
    rw [List.cons_append, parseDigits, parseDigits]
    cases digitValue c with
    | none => rfl
    | some d =>
      simp only [Option.bind_some]
      split
      · exact ih _
      · rfl

/-- The value of a printed digit. -/
theorem digitValue_digitChar {d : ℕ} (hd : d < 10) : digitValue d.digitChar = some d := by
  rw [digitValue, Nat.isDigit_digitChar, decide_eq_true hd, if_pos rfl,
    Nat.toNat_digitChar_sub_48_of_lt_ten hd]

/-- Printing a number within the limit and reading the digits back returns it. -/
theorem parseDigits_decimal {limit n : ℕ} (hn : n ≤ limit) : parseDigits limit 0 (decimal n) = some n := by
  induction n using Nat.strongRecOn with
  | _ n ih =>
    by_cases hlt : n < 10
    · rw [decimal, Nat.toDigits_of_lt_base hlt, parseDigits, digitValue_digitChar hlt]
      simp [parseDigits, hn]
    · have hmod : n % 10 < 10 := Nat.mod_lt n (by decide)
      have hdiv : n / 10 * 10 + n % 10 = n := by omega
      rw [decimal, Nat.toDigits_of_base_le (by decide) (by omega), parseDigits_append]
      have hrec := ih (n / 10) (by omega) (by omega)
      rw [decimal] at hrec
      rw [hrec, Option.bind_some, parseDigits, digitValue_digitChar hmod]
      simp [parseDigits, hdiv, hn]

theorem decimal_ne_nil (n : ℕ) : decimal n ≠ [] := Nat.toDigits_ne_nil

/-- A printed number consists of digits. -/
theorem isDigit_of_mem_decimal {n : ℕ} {c : Char} (hc : c ∈ decimal n) : c.isDigit :=
  Nat.isDigit_of_mem_toDigits (by decide) (by decide) hc

/-- Parsing a printed number within the limit returns it. -/
theorem parseUnsigned_decimal {limit n : ℕ} (hn : n ≤ limit) : parseUnsigned limit (decimal n) = some n := by
  have hdigits := parseDigits_decimal hn
  cases hs : decimal n with
  | nil => exact (decimal_ne_nil n hs).elim
  | cons c rest =>
    have hc : c ≠ '+' := by
      rintro rfl
      have hd := isDigit_of_mem_decimal (n := n) (c := '+') (by rw [hs]; exact List.mem_cons_self)
      exact absurd hd (by decide)
    rw [hs] at hdigits
    rw [parseUnsigned, if_neg hc, hdigits]

/-- The decimal text of a `u16` is parsed back to it. -/
theorem parseU16_decimal {n : ℕ} (hn : n ≤ 65535) : parseU16 (decimal n) = some n :=
  parseUnsigned_decimal hn

end Base
