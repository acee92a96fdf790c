import Mathlib.Data.List.Basic

/-!
# Strings as scalar values, and their UTF-8 bytes

A string is the list of its Unicode scalar values. Encoding is Lean's own character
encoder applied in order; decoding is Lean's validating decoder. The two are inverse on
valid bytes, so a byte string has at most one text and a text exactly one byte string.
-/

namespace Base

/-- A string, as its sequence of Unicode scalar values. -/
abbrev Str := List Char

/-- A byte string. -/
abbrev Bytes := List UInt8

/-- The UTF-8 bytes of a string. -/
def utf8 (s : Str) : Bytes := s.flatMap String.utf8EncodeChar

/-- Decode a byte string, failing unless every byte belongs to a well formed sequence. -/
def fromUtf8 (bytes : Bytes) : Option Str := bytes.toByteArray.utf8Decode?.map Array.toList

/-- The bytes are the encoding of some string. -/
def ValidUtf8 (bytes : Bytes) : Prop := ∃ s : Str, utf8 s = bytes

/-- The byte array underlying an encoding is the one Lean's strings store. -/
theorem utf8_toByteArray (s : Str) : (utf8 s).toByteArray = s.utf8Encode := rfl

/-- Two byte strings with the same array are equal. -/
theorem toByteArray_injective : Function.Injective (List.toByteArray : Bytes → ByteArray) := by
  intro left right h
  have hdata := congrArg (fun array => array.data.toList) h
  simpa only [List.data_toByteArray] using hdata

/-- Decoding an encoding returns the string that was encoded. -/
@[simp] theorem fromUtf8_utf8 (s : Str) : fromUtf8 (utf8 s) = some s := by
  simp only [fromUtf8, utf8_toByteArray, List.utf8Decode?_utf8Encode, Option.map_some]

/-- A string has one encoding, and the encoding determines it. -/
theorem utf8_injective : Function.Injective utf8 := by
  intro left right h
  have hd := congrArg fromUtf8 h
  simpa only [fromUtf8_utf8, Option.some.injEq] using hd

/-- Whatever decodes was the encoding of the result. -/
theorem utf8_of_fromUtf8 {bytes : Bytes} {s : Str} (h : fromUtf8 bytes = some s) :
    utf8 s = bytes := by
  obtain ⟨chars, hchars, rfl⟩ := Option.map_eq_some_iff.mp h
  have hsome : bytes.toByteArray.utf8Decode?.isSome := by rw [hchars, Option.isSome_some]
  have hback := ByteArray.utf8Encode_get_utf8Decode? (b := bytes.toByteArray) (h := hsome)
  simp only [hchars, Option.get_some] at hback
  exact toByteArray_injective hback

/-- The encoding of a character begins no other character's. -/
theorem utf8EncodeChar_append_inj {c d : Char} {left right : Bytes}
    (h : String.utf8EncodeChar c ++ left = String.utf8EncodeChar d ++ right) :
    c = d ∧ left = right := by
  have hdecode : ∀ (e : Char) (rest : Bytes),
      (String.utf8EncodeChar e ++ rest).toByteArray.utf8DecodeChar? 0 = some e := by
    intro e rest
    rw [List.toByteArray_append]
    exact ByteArray.utf8DecodeChar?_utf8EncodeChar_append
  have hc := hdecode c left
  rw [h, hdecode d right] at hc
  obtain rfl := Option.some.inj hc
  exact ⟨rfl, List.append_cancel_left h⟩

/-- A text begins with another exactly when its bytes begin with the other's. -/
theorem utf8_prefix_iff {s t : Str} : utf8 s <+: utf8 t ↔ s <+: t := by
  constructor
  · intro h
    induction s generalizing t with
    | nil => exact List.nil_prefix
    | cons c s ih =>
      obtain ⟨rest, hrest⟩ := h
      have hcons : utf8 (c :: s) ++ rest = String.utf8EncodeChar c ++ (utf8 s ++ rest) :=
        List.append_assoc ..
      rw [hcons] at hrest
      cases t with
      | nil => exact absurd (List.append_eq_nil_iff.1 hrest).1 String.utf8EncodeChar_ne_nil
      | cons d t =>
        obtain ⟨rfl, htail⟩ := utf8EncodeChar_append_inj hrest
        exact List.cons_prefix_cons.2 ⟨rfl, ih ⟨rest, htail⟩⟩
  · rintro ⟨rest, rfl⟩
    exact ⟨utf8 rest, List.flatMap_append.symm⟩

end Base
