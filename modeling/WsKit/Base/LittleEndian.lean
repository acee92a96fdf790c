import Mathlib.Data.Nat.Digits.Lemmas
import WsKit.Base.Utf8

/-!
# Little-endian words

The bytes of a number, least significant first, in a fixed width. Reading them back returns the
number when it fits, so different machine words have different bytes.
-/

namespace Base

/-- The lowest bytes of a number, least significant first. -/
def leBytes : ℕ → ℕ → Bytes
  | 0, _ => []
  | width + 1, value => .ofNat value :: leBytes width (value / 256)

/-- The number that little-endian bytes stand for. -/
def leValue (bytes : Bytes) : ℕ := Nat.ofDigits 256 (bytes.map UInt8.toNat)

/-- The bytes of a 64-bit word. -/
def toLeBytes (word : UInt64) : Bytes := leBytes 8 word.toNat

@[simp] theorem leBytes_length (width value : ℕ) : (leBytes width value).length = width := by
  induction width generalizing value with
  | zero => rfl
  | succ width ih => rw [leBytes, List.length_cons, ih]

@[simp] theorem toLeBytes_length (word : UInt64) : (toLeBytes word).length = 8 :=
  leBytes_length 8 word.toNat

/-- A number that fits is read back from its bytes. -/
theorem leValue_leBytes {width value : ℕ} (h : value < 256 ^ width) :
    leValue (leBytes width value) = value := by
  induction width generalizing value with
  | zero => exact (Nat.lt_one_iff.1 h).symm
  | succ width ih =>
    have hrest : value / 256 < 256 ^ width := by
      rw [Nat.div_lt_iff_lt_mul (by decide), ← pow_succ]
      exact h
    have hread := ih hrest
    rw [leValue] at hread
    rw [leBytes, leValue, List.map_cons, Nat.ofDigits_cons, hread]
    exact Nat.mod_add_div value 256

/-- Different words have different bytes. -/
theorem toLeBytes_inj {word word' : UInt64} : toLeBytes word = toLeBytes word' ↔ word = word' := by
  refine ⟨fun h => ?_, fun h => h ▸ rfl⟩
  have hread := congrArg leValue h
  rw [toLeBytes, toLeBytes, leValue_leBytes word.toNat_lt, leValue_leBytes word'.toNat_lt] at hread
  exact UInt64.toNat_inj.1 hread

end Base
