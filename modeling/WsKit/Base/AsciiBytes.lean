import WsKit.Base.Ascii
import WsKit.Base.Fields

/-!
# ASCII in encoded text

A character beyond ASCII is encoded without any byte below 128. So the bytes that spell ASCII in
an encoded text are its ASCII characters, and folding the bytes is folding the characters.
-/

namespace Base

/-- Every byte of a character beyond ASCII is beyond ASCII. -/
theorem le_of_mem_utf8EncodeChar {c : Char} (h : 128 ≤ c.toNat) {b : UInt8}
    (hb : b ∈ String.utf8EncodeChar c) : 128 ≤ b.toNat := by
  have hlarge : ¬ c.val.toNat ≤ 0x7f := Nat.not_le_of_lt h
  rw [String.utf8EncodeChar, if_neg hlarge] at hb
  have hbyte : ∃ n, b = .ofNat n ∧ 128 ≤ n ∧ n < 256 := by
    split at hb
    · simp only [List.mem_cons, List.not_mem_nil, or_false] at hb
      obtain rfl | rfl := hb <;> exact ⟨_, rfl, by omega, by omega⟩
    · split at hb
      · simp only [List.mem_cons, List.not_mem_nil, or_false] at hb
        obtain rfl | rfl | rfl := hb <;> exact ⟨_, rfl, by omega, by omega⟩
      · simp only [List.mem_cons, List.not_mem_nil, or_false] at hb
        obtain rfl | rfl | rfl | rfl := hb <;> exact ⟨_, rfl, by omega, by omega⟩
  obtain ⟨n, rfl, hlow, hhigh⟩ := hbyte
  rw [UInt8.toNat_ofNat', Nat.mod_eq_of_lt hhigh]
  exact hlow

/-- Bytes beyond ASCII are not letters. -/
theorem asciiLowerByte_of_le {b : UInt8} (h : 128 ≤ b.toNat) : asciiLowerByte b = b := by
  rw [asciiLowerByte, if_neg]
  rintro ⟨-, hle⟩
  have hz : b.toNat ≤ 90 := UInt8.le_iff_toNat_le.1 hle
  omega

/-- Characters beyond ASCII are not letters. -/
theorem caseless_of_le {c : Char} (h : 128 ≤ c.toNat) : Caseless c := by
  rw [Caseless, Bool.eq_false_iff]
  intro halpha
  have hbounds := toNat_of_isAlpha halpha
  omega

/-- Folding the bytes of a character is folding the character. -/
theorem map_asciiLowerByte_utf8EncodeChar (c : Char) :
    (String.utf8EncodeChar c).map asciiLowerByte = String.utf8EncodeChar c.toLower := by
  by_cases h : c.toNat < 128
  · have hall : ∀ n : Fin 128, (String.utf8EncodeChar (Char.ofNat n)).map asciiLowerByte =
        String.utf8EncodeChar (Char.ofNat n).toLower := by decide
    have hc := hall ⟨c.toNat, h⟩
    rwa [Char.ofNat_toNat] at hc
  · have hlarge : 128 ≤ c.toNat := Nat.le_of_not_lt h
    rw [toLower_of_caseless (caseless_of_le hlarge)]
    have hkept : ∀ b ∈ String.utf8EncodeChar c, asciiLowerByte b = id b :=
      fun b hb => asciiLowerByte_of_le (le_of_mem_utf8EncodeChar hlarge hb)
    rw [List.map_congr_left hkept, List.map_id]

/-- Folding the bytes of a text is folding the text. -/
theorem map_asciiLowerByte_utf8 (s : Str) :
    (utf8 s).map asciiLowerByte = utf8 (toAsciiLowercase s) := by
  induction s with
  | nil => rfl
  | cons c s ih =>
    have hcons : ∀ (d : Char) (t : Str), utf8 (d :: t) = String.utf8EncodeChar d ++ utf8 t :=
      fun _ _ => rfl
    rw [hcons, List.map_append, ih, map_asciiLowerByte_utf8EncodeChar, toAsciiLowercase_cons, hcons]

/-- Folding keeps every character's length in bytes. -/
theorem byteLen_toAsciiLowercase (s : Str) : byteLen (toAsciiLowercase s) = byteLen s := by
  rw [← length_utf8, ← map_asciiLowerByte_utf8, List.length_map, length_utf8]

/-- The first bytes of a text spell a pattern up to ASCII case exactly when its first characters
do. -/
theorem eqIgnoreAsciiCase_take_iff {s pat : Str} (h : toAsciiLowercase pat = pat) :
    eqIgnoreAsciiCase ((utf8 s).take (byteLen pat)) (utf8 pat) = true ↔
      ∃ spelled rest, s = spelled ++ rest ∧ toAsciiLowercase spelled = pat := by
  have hbytes : eqIgnoreAsciiCase ((utf8 s).take (byteLen pat)) (utf8 pat) = true ↔
      utf8 pat <+: utf8 (toAsciiLowercase s) := by
    rw [eqIgnoreAsciiCase, decide_eq_true_eq, List.map_take, map_asciiLowerByte_utf8,
      map_asciiLowerByte_utf8, h, List.prefix_iff_eq_take, length_utf8, eq_comm]
  rw [hbytes, utf8_prefix_iff, toAsciiLowercase, List.prefix_map_iff]
  constructor
  · rintro ⟨spelled, ⟨rest, hrest⟩, hspelled⟩
    exact ⟨spelled, rest, hrest.symm, hspelled.symm⟩
  · rintro ⟨spelled, rest, hs, hspelled⟩
    exact ⟨spelled, ⟨rest, hs.symm⟩, hspelled.symm⟩

end Base
