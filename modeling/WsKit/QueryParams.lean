import WsKit.Extractor

/-!
# Query strings

A query string written from pairs is read back pair by pair: what is written for a key or a
value contains none of the separators, and it hides nothing from the decoder.
-/

namespace WsKit

open Base

/-- The text of a pair: key and value, both form-encoded. -/
def EncodesPair (pair : Str × Str) (part : Str) : Prop :=
  ∃ k v, FormEncodes pair.1 k ∧ FormEncodes pair.2 v ∧ part = k ++ '=' :: v

/-- The query string of a list of pairs. -/
def EncodesQuery (pairs : List (Str × Str)) (query : Str) : Prop :=
  ∃ parts, List.Forall₂ EncodesPair pairs parts ∧ query = ['&'].intercalate parts

/-- An encoding consists of complete escapes, so it hides nothing. -/
theorem nothingHidden_of_formEncodes {s e : Str} (h : FormEncodes s e) : nothingHidden e = true := by
  induction h with
  | nil => rfl
  | cons hc hs ih =>
    cases hc with
    | unreserved hu =>
      rw [List.singleton_append, nothingHidden_cons_of_ne (ne_of_isUnreserved hu).2]
      exact ih
    | space =>
      rw [List.singleton_append, nothingHidden_cons_of_ne (by decide)]
      exact ih
    | escape hu hascii hpair => simp [nothingHidden, hpair, ih]

/-- Decoding an encoding returns the text. -/
theorem urlDecode_of_formEncodes {s e : Str} (h : FormEncodes s e) : urlDecode e = s := by
  rw [urlDecode_of_nothingHidden (nothingHidden_of_formEncodes h), h.formDecode_eq]

/-- A reserved character other than `+` and `%` does not occur in an encoding. -/
theorem notMem_of_formEncodes {s e : Str} (h : FormEncodes s e) {c : Char}
    (hc : isUnreserved c = false) (hplus : c ≠ '+') (hpercent : c ≠ '%') : c ∉ e := by
  intro hmem
  rcases h.mem hmem with hu | rfl | rfl
  · rw [hc] at hu
    cases hu
  · exact hplus rfl
  · exact hpercent rfl

/-- The text of a pair contains no separator of pairs and no question mark. -/
theorem notMem_of_encodesPair {pair : Str × Str} {part : Str} (h : EncodesPair pair part) {c : Char}
    (hc : c = '&' ∨ c = '?') : c ∉ part := by
  obtain ⟨k, v, hk, hv, rfl⟩ := h
  have hreserved : isUnreserved c = false ∧ c ≠ '+' ∧ c ≠ '%' ∧ c ≠ '=' := by
    rcases hc with rfl | rfl <;> decide
  obtain ⟨hc, hplus, hpercent, hequals⟩ := hreserved
  rw [List.mem_append, List.mem_cons]
  rintro (hmem | heq | hmem)
  · exact notMem_of_formEncodes hk hc hplus hpercent hmem
  · exact hequals heq
  · exact notMem_of_formEncodes hv hc hplus hpercent hmem

/-- No part of a query contains the separator of pairs. -/
theorem notMem_of_forall₂ {pairs : List (Str × Str)} {parts : List Str}
    (h : List.Forall₂ EncodesPair pairs parts) : ∀ part ∈ parts, '&' ∉ part := by
  induction h with
  | nil =>
    intro part hmem
    cases hmem
  | cons hpair hrest ih =>
    intro part hmem
    rcases List.mem_cons.1 hmem with rfl | hmem
    · exact notMem_of_encodesPair hpair (.inl rfl)
    · exact ih part hmem

/-- Splitting the text of a pair at the first equals sign returns its two encodings. -/
theorem splitPair_of_encodesPair {pair : Str × Str} {part : Str} (h : EncodesPair pair part) :
    part ≠ [] ∧ urlDecode (splitPair '=' part).1 = pair.1 ∧
      urlDecode (splitPair '=' part).2 = pair.2 := by
  obtain ⟨k, v, hk, hv, rfl⟩ := h
  have hsplit := splitPair_append
    (notMem_of_formEncodes hk (c := '=') (by decide) (by decide) (by decide)) v
  rw [hsplit, urlDecode_of_formEncodes hk, urlDecode_of_formEncodes hv]
  exact ⟨by simp, rfl, rfl⟩

namespace TokenExtractor

/-- An empty query has one empty part, which is skipped. -/
theorem extractQueryParam_eq (query name : Str) :
    extractQueryParam query name = findParam name ((trimStartMatches '?' query).splitOn '&') := by
  rw [extractQueryParam]
  by_cases hempty : trimStartMatches '?' query = []
  · simp only [hempty, List.splitOn_nil]
    rfl
  · simp only [if_neg hempty]

/-- The parts of a query are searched for the first pair with the key and a value. -/
theorem findParam_of_forall₂ {pairs : List (Str × Str)} {parts : List Str}
    (h : List.Forall₂ EncodesPair pairs parts) (name : Str) :
    findParam name parts = (pairs.find? fun pair => pair.1 = name ∧ pair.2 ≠ []).map Prod.snd := by
  induction h with
  | nil => rfl
  | @cons pair part pairs parts hpair hrest ih =>
    obtain ⟨hne, hkey, hvalue⟩ := splitPair_of_encodesPair hpair
    rw [findParam, if_neg hne, hkey, hvalue, ih]
    by_cases hname : pair.1 = name
    · by_cases hempty : pair.2 = []
      · rw [if_pos hname, if_neg (not_not.2 hempty), List.find?_cons_of_neg (by simp [hempty])]
      · rw [if_pos hname, if_pos hempty, List.find?_cons_of_pos (by simp [hname, hempty])]
        rfl
    · rw [if_neg hname, List.find?_cons_of_neg (by simp [hname])]

/-- A query that was written from pairs is not trimmed. -/
theorem trimStartMatches_of_encodesPair {pair : Str × Str} {part : Str} (h : EncodesPair pair part)
    (rest : List Str) :
    trimStartMatches '?' (['&'].intercalate (part :: rest)) = ['&'].intercalate (part :: rest) := by
  apply trimStartMatches_eq_self
  intro d hd heq
  obtain ⟨c, part', rfl⟩ := List.exists_cons_of_ne_nil (splitPair_of_encodesPair h).1
  obtain ⟨tail, htail⟩ := prefix_intercalate ['&'] (c :: part') rest
  rw [← htail, List.cons_append, List.head?_cons, Option.mem_some_iff] at hd
  exact notMem_of_encodesPair h (.inr heq) (by rw [← hd]; exact List.mem_cons_self)

/-- A parameter is read from a query string as the value of the first pair with its name and a
nonempty value, with or without question marks in front. -/
theorem extractQueryParam_of_encodesQuery {pairs : List (Str × Str)} {query : Str}
    (h : EncodesQuery pairs query) (marks : ℕ) (name : Str) :
    extractQueryParam (List.replicate marks '?' ++ query) name =
      (pairs.find? fun pair => pair.1 = name ∧ pair.2 ≠ []).map Prod.snd := by
  obtain ⟨parts, hparts, rfl⟩ := h
  rw [extractQueryParam_eq, trimStartMatches_replicate_append]
  cases hparts with
  | nil => rfl
  | @cons pair part pairs rest hpair hrest =>
    have hparts := List.Forall₂.cons hpair hrest
    rw [trimStartMatches_of_encodesPair hpair,
      List.splitOn_intercalate '&' (notMem_of_forall₂ hparts) (List.cons_ne_nil part rest)]
    exact findParam_of_forall₂ hparts name

/-- A value with a space and a percent sign, after an empty value under the same key, which
contains a separator. -/
theorem extractQueryParam_of_encodesQuery_reserved :
    extractQueryParam "?a%26=&a%26=x+%25".toList ['a', '&'] = some ['x', ' ', '%'] := by
  have hkey : FormEncodes ['a', '&'] ['a', '%', '2', '6'] :=
    .cons (.unreserved (by decide)) (.cons (.escape (by decide) (by decide) (by decide)) .nil)
  have hvalue : FormEncodes ['x', ' ', '%'] ['x', '+', '%', '2', '5'] :=
    .cons (.unreserved (by decide))
      (.cons .space (.cons (.escape (by decide) (by decide) (by decide)) .nil))
  have hquery : EncodesQuery [(['a', '&'], []), (['a', '&'], ['x', ' ', '%'])]
      "a%26=&a%26=x+%25".toList :=
    ⟨[_, _], .cons ⟨_, _, hkey, .nil, rfl⟩ (.cons ⟨_, _, hkey, hvalue, rfl⟩ .nil), by decide⟩
  exact extractQueryParam_of_encodesQuery hquery 1 ['a', '&']

end TokenExtractor

end WsKit
