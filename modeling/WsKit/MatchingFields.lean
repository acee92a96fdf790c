import WsKit.QueryParams

/-!
# The fields that decide a token

A parameter or a cookie is searched for among the pairs of a query or the parts of a header.
Only those with its name decide what is found, and of these the first with a value. Each source
checks for emptiness at a stage of its own, the cookie before decoding, and still no token is
empty, since decoding never takes away all of a text.
-/

namespace WsKit

open Base

/-- Decoding leaves something of every text but the empty one. -/
theorem urlDecode_eq_nil_iff {s : Str} : urlDecode s = [] ↔ s = [] := by
  constructor
  · intro h
    induction s using read_induct with
    | nil => rfl
    | plus rest ih =>
      rw [urlDecode_plus] at h
      cases h
    | escape h' l d rest hpair ih =>
      rw [urlDecode_escape hpair] at h
      cases h
    | malformed h' l rest hpair ih =>
      rw [urlDecode_malformed hpair] at h
      cases h
    | cut c => cases h
    | last => cases h
    | copy c rest hplus hpercent ih =>
      rw [urlDecode_copy hplus hpercent] at h
      cases h
  · rintro rfl
    rfl

namespace TokenExtractor

/-- The decoded key of a pair. -/
def pairKey (pair : Str) : Str := urlDecode (splitPair '=' pair).1

/-- The decoded value of a pair. -/
def pairValue (pair : Str) : Str := urlDecode (splitPair '=' pair).2

/-- The key of a part of a cookie header, trimmed. -/
def partKey (part : Str) : Str := trim (splitPair '=' (trim part)).1

/-- The value of a part of a cookie header, without white space and quotes around it. -/
def partValue (part : Str) : Str := trimMatches '"' (trim (splitPair '=' (trim part)).2)

/-- The pairs of a query with a decoded key, in order. -/
def pairsNamed (query name : Str) : List Str :=
  ((trimStartMatches '?' query).splitOn '&').filter fun pair => pairKey pair = name

/-- The parts of a cookie header with a trimmed key, in order. -/
def partsNamed (header name : Str) : List Str :=
  (header.splitOn ';').filter fun part => partKey part = name

/-- The first value that is not empty. -/
def firstValue (values : List Str) : Option Str := values.find? fun v => v ≠ []

/-- A first value is one of the values, and not empty. -/
theorem of_firstValue {values : List Str} {v : Str} (h : firstValue values = some v) :
    v ∈ values ∧ v ≠ [] := by
  have hne := List.find?_some h
  exact ⟨List.mem_of_find?_eq_some h, by simpa using hne⟩

/-- An empty value is passed over. -/
theorem firstValue_cons_nil (values : List Str) : firstValue ([] :: values) = firstValue values :=
  List.find?_cons_of_neg (by simp)

/-- A value that is not empty is the first one. -/
theorem firstValue_cons_of_ne {v : Str} (h : v ≠ []) (values : List Str) :
    firstValue (v :: values) = some v :=
  List.find?_cons_of_pos (by simpa using h)

/-- A parameter is searched for among the pairs with its name. -/
theorem findParam_eq (name : Str) (pairs : List Str) :
    findParam name pairs =
      firstValue ((pairs.filter fun pair => pairKey pair = name).map pairValue) := by
  induction pairs with
  | nil => rfl
  | cons pair pairs ih =>
    by_cases hname : pairKey pair = name
    · rw [List.filter_cons_of_pos (by simpa using hname), List.map_cons, findParam]
      by_cases hpair : pair = []
      · have hvalue : pairValue pair = [] := by rw [hpair]; rfl
        rw [if_pos hpair, hvalue, firstValue_cons_nil, ih]
      · have hkey : urlDecode (splitPair '=' pair).1 = name := hname
        rw [if_neg hpair, if_pos hkey, ← pairValue]
        by_cases hvalue : pairValue pair = []
        · rw [if_neg (not_not.2 hvalue), hvalue, firstValue_cons_nil, ih]
        · rw [if_pos hvalue, firstValue_cons_of_ne hvalue]
    · have hkey : ¬ urlDecode (splitPair '=' pair).1 = name := hname
      rw [List.filter_cons_of_neg (by simpa using hname), findParam, if_neg hkey, ih, ite_self]

/-- A cookie is searched for among the parts with its name, and its value decoded. -/
theorem findCookie_eq (name : Str) (parts : List Str) :
    findCookie name parts =
      (firstValue ((parts.filter fun part => partKey part = name).map partValue)).map urlDecode := by
  induction parts with
  | nil => rfl
  | cons part parts ih =>
    rw [findCookie, ← partValue, ← partKey]
    by_cases hname : partKey part = name
    · rw [List.filter_cons_of_pos (by simpa using hname), List.map_cons]
      by_cases hvalue : partValue part = []
      · rw [if_neg fun h => h.2 hvalue, hvalue, firstValue_cons_nil, ih]
      · rw [if_pos ⟨hname, hvalue⟩, firstValue_cons_of_ne hvalue, Option.map_some]
    · rw [if_neg fun h => hname h.1, List.filter_cons_of_neg (by simpa using hname), ih]

/-- The pairs with a name decide the parameter. -/
theorem extractQueryParam_eq_firstValue (query name : Str) :
    extractQueryParam query name = firstValue ((pairsNamed query name).map pairValue) := by
  rw [extractQueryParam_eq, findParam_eq, pairsNamed]

/-- The parts with a name decide the cookie. -/
theorem parseCookie_eq_firstValue (header name : Str) :
    parseCookie header name =
      (firstValue ((partsNamed header name).map partValue)).map urlDecode := by
  rw [parseCookie, findCookie_eq, partsNamed]

/-- Two queries with the same pairs of a name give the same parameter, and two cookie headers with
the same parts of a name the same cookie. What they give is the decoded value of such a pair or
part. -/
theorem token_of_named (name : Str) :
    (∀ query query', pairsNamed query name = pairsNamed query' name →
      extractQueryParam query name = extractQueryParam query' name) ∧
    (∀ header header', partsNamed header name = partsNamed header' name →
      parseCookie header name = parseCookie header' name) ∧
    (∀ query token, extractQueryParam query name = some token →
      ∃ pair ∈ pairsNamed query name, token = pairValue pair) ∧
    ∀ header token, parseCookie header name = some token →
      ∃ part ∈ partsNamed header name, token = urlDecode (partValue part) := by
  refine ⟨?_, ?_, ?_, ?_⟩
  · intro query query' h
    rw [extractQueryParam_eq_firstValue, extractQueryParam_eq_firstValue, h]
  · intro header header' h
    rw [parseCookie_eq_firstValue, parseCookie_eq_firstValue, h]
  · intro query token h
    rw [extractQueryParam_eq_firstValue] at h
    obtain ⟨pair, hpair, hvalue⟩ := List.mem_map.1 (of_firstValue h).1
    exact ⟨pair, hpair, hvalue.symm⟩
  · intro header token h
    rw [parseCookie_eq_firstValue] at h
    obtain ⟨v, hv, hdecoded⟩ := Option.map_eq_some_iff.1 h
    obtain ⟨part, hpart, hvalue⟩ := List.mem_map.1 (of_firstValue hv).1
    exact ⟨part, hpart, by rw [hvalue, hdecoded]⟩

/-- Fields with other names around a token change nothing. -/
theorem token_of_named_unrelated :
    extractQueryParam ['a', '=', '&', 't', '=', 'x'] ['t'] =
        extractQueryParam ['?', 't', '=', 'x', '&', '%', '='] ['t'] ∧
      parseCookie ['a', ';', 't', '=', 'x'] ['t'] = parseCookie ['t', '=', 'x', ';', '='] ['t'] := by
  obtain ⟨hparam, hcookie, -⟩ := token_of_named ['t']
  exact ⟨hparam _ _ (by decide), hcookie _ _ (by decide)⟩

/-! ### No token is empty -/

/-- A parameter is not empty: it was checked after decoding. -/
theorem extractQueryParam_ne_nil {query name token : Str}
    (h : extractQueryParam query name = some token) : token ≠ [] := by
  rw [extractQueryParam_eq_firstValue] at h
  exact (of_firstValue h).2

/-- A cookie is not empty: its value was not before decoding. -/
theorem parseCookie_ne_nil {header name token : Str} (h : parseCookie header name = some token) :
    token ≠ [] := by
  rw [parseCookie_eq_firstValue] at h
  obtain ⟨v, hv, rfl⟩ := Option.map_eq_some_iff.1 h
  exact mt urlDecode_eq_nil_iff.1 (of_firstValue hv).2

/-- No source gives an empty token. -/
theorem lookInTexts_ne_nil {authHeader cookieHeader : Option Str} {query token : Str}
    {src : TokenSourceKind}
    (h : lookInTexts authHeader cookieHeader query src = .ok (some token)) : token ≠ [] := by
  cases src with
  | authorizationHeader =>
    cases authHeader with
    | none => cases h
    | some s =>
      simp only [lookInTexts, parseBearer_eq, bind, Except.bind, pure, Except.pure,
        Except.ok.injEq, Option.filter_eq_some_iff] at h
      exact ne_nil_of_bearerToken h.1
  | queryParam name => exact extractQueryParam_ne_nil (Except.ok.inj h)
  | cookie name =>
    obtain ⟨header, _, hcookie⟩ := Option.bind_eq_some_iff.1 (Except.ok.inj h)
    exact parseCookie_ne_nil hcookie

/-- Neither entry point ever returns an empty token, whatever the sources and the texts are. -/
theorem extract_ne_nil (extractor : TokenExtractor) (query : Str) :
    (∀ authHeader cookieHeader,
      extractFromParts extractor authHeader cookieHeader query ≠ .ok (some [])) ∧
    (∀ parts, extractToken extractor parts query ≠ .ok (some [])) ∧
    ∀ header name, parseCookie header name ≠ some [] := by
  refine ⟨?_, ?_, ?_⟩
  · intro authHeader cookieHeader h
    obtain ⟨src, _, hsrc⟩ := exists_of_firstToken h
    exact lookInTexts_ne_nil hsrc rfl
  · intro parts h
    obtain ⟨src, _, hsrc⟩ := exists_of_firstToken h
    rw [lookInRequest_eq] at hsrc
    exact lookInTexts_ne_nil hsrc rfl
  · intro header name h
    exact parseCookie_ne_nil h rfl

end TokenExtractor

end WsKit
