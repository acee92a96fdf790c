import WsKit.Extractor

/-!
# Cookie headers

A cookie is a token, an equals sign and octets, the octets perhaps between double quotes. What
is read back from a header is the value after the decoding of form data, so a plus in a token
becomes a space, which the same token after `Bearer` does not.
-/

namespace WsKit

open Base

/-- The characters of a token: visible, and no separator. -/
def isTokenChar (c : Char) : Bool :=
  33 ≤ c.toNat && c.toNat ≤ 126 && !"()<>@,;:\\\"/[]?=\x7b\x7d".toList.contains c

/-- The characters of a cookie value: visible, and no quote, comma, semicolon or backslash. -/
def isCookieOctet (c : Char) : Bool :=
  33 ≤ c.toNat && c.toNat ≤ 126 && !"\",;\\".toList.contains c

/-- A cookie without percent signs in its value. -/
structure Cookie where
  name : Str
  value : Str
  quoted : Bool
  name_ne_nil : name ≠ []
  isTokenChar_name : ∀ c ∈ name, isTokenChar c = true
  isCookieOctet_value : ∀ c ∈ value, isCookieOctet c = true ∧ c ≠ '%'

namespace Cookie

/-- The value as it is written. -/
def written (cookie : Cookie) : Str :=
  if cookie.quoted then '"' :: (cookie.value ++ ['"']) else cookie.value

/-- The text of a cookie. -/
def text (cookie : Cookie) : Str := cookie.name ++ '=' :: cookie.written

/-- The cookie has this name and a value. -/
def carries (name : Str) (cookie : Cookie) : Bool := cookie.name = name && cookie.value ≠ []

/-- The header of a list of cookies. -/
def header (cookies : List Cookie) : Str := [';', ' '].intercalate (cookies.map text)

/-- The value that a list of cookies gives for a name. -/
def valueOf (cookies : List Cookie) (name : Str) : Option Str :=
  (cookies.find? (carries name)).map value

end Cookie

/-- A plus read as a space. -/
def plusToSpace (c : Char) : Char := if c = '+' then ' ' else c

/-- Without percent signs only the pluses are decoded. -/
theorem urlDecode_of_notMem_percent {s : Str} (h : '%' ∉ s) : urlDecode s = s.map plusToSpace := by
  induction s with
  | nil => rfl
  | cons c s ih =>
    rw [List.mem_cons, not_or] at h
    by_cases hplus : c = '+'
    · rw [hplus, urlDecode_plus, ih h.2]
      rfl
    · rw [urlDecode_copy hplus (Ne.symm h.1), ih h.2, List.map_cons, plusToSpace, if_neg hplus]

/-- The pluses of a text are all that its decoding can change. -/
theorem map_plusToSpace_eq_iff {s : Str} : s.map plusToSpace = s ↔ '+' ∉ s := by
  induction s with
  | nil => simp
  | cons c s ih =>
    rw [List.map_cons, List.cons.injEq, ih, List.mem_cons, not_or]
    refine and_congr_left fun _ => ?_
    by_cases hplus : c = '+'
    · simp [plusToSpace, hplus]
    · simp [plusToSpace, hplus, Ne.symm hplus]

/-! ### Reading a cookie -/

/-- The characters of a token. -/
theorem isTokenChar_iff {c : Char} (h : isTokenChar c = true) :
    isWhitespace c = false ∧ c ≠ ';' ∧ c ≠ '=' := by
  simp only [isTokenChar, Bool.and_eq_true, decide_eq_true_eq] at h
  refine ⟨isWhitespace_of_graphic h.1, ?_, ?_⟩
  · rintro rfl
    exact absurd h (by decide)
  · rintro rfl
    exact absurd h (by decide)

/-- The characters of a value. -/
theorem isCookieOctet_iff {c : Char} (h : isCookieOctet c = true) :
    isWhitespace c = false ∧ c ≠ ';' ∧ c ≠ '"' := by
  simp only [isCookieOctet, Bool.and_eq_true, decide_eq_true_eq] at h
  refine ⟨isWhitespace_of_graphic h.1, ?_, ?_⟩
  · rintro rfl
    exact absurd h (by decide)
  · rintro rfl
    exact absurd h (by decide)

namespace Cookie

/-- A written value contains neither white space nor semicolons. -/
theorem clear_of_mem_written {cookie : Cookie} {c : Char} (h : c ∈ cookie.written) :
    isWhitespace c = false ∧ c ≠ ';' := by
  have hvalue : ∀ d ∈ cookie.value, isWhitespace d = false ∧ d ≠ ';' := by
    intro d hd
    obtain ⟨hspace, hsemicolon, _⟩ := isCookieOctet_iff (cookie.isCookieOctet_value d hd).1
    exact ⟨hspace, hsemicolon⟩
  rw [written] at h
  split at h
  · rw [List.mem_cons, List.mem_append, List.mem_singleton] at h
    rcases h with rfl | h | rfl
    · exact ⟨by decide, by decide⟩
    · exact hvalue c h
    · exact ⟨by decide, by decide⟩
  · exact hvalue c h

/-- The text of a cookie contains neither white space nor semicolons. -/
theorem clear_of_mem_text {cookie : Cookie} {c : Char} (h : c ∈ cookie.text) :
    isWhitespace c = false ∧ c ≠ ';' := by
  rw [text, List.mem_append, List.mem_cons] at h
  rcases h with h | rfl | h
  · obtain ⟨hspace, hsemicolon, _⟩ := isTokenChar_iff (cookie.isTokenChar_name c h)
    exact ⟨hspace, hsemicolon⟩
  · exact ⟨by decide, by decide⟩
  · exact clear_of_mem_written h

/-- The quotes of a written value are trimmed, and nothing else. -/
theorem trimMatches_written (cookie : Cookie) :
    trimMatches '"' (trim cookie.written) = cookie.value := by
  have hquote : '"' ∉ cookie.value := by
    intro hmem
    exact (isCookieOctet_iff (cookie.isCookieOctet_value _ hmem).1).2.2 rfl
  rw [trim_eq_self_of_forall fun c hc => (clear_of_mem_written hc).1, written]
  split
  · exact trimMatches_delimited hquote
  · exact trimMatches_of_notMem hquote

/-- The name of a cookie ends at its equals sign. -/
theorem splitPair_text (cookie : Cookie) :
    splitPair '=' (trim cookie.text) = (cookie.name, cookie.written) := by
  rw [trim_eq_self_of_forall fun c hc => (clear_of_mem_text hc).1, text]
  apply splitPair_append
  intro hmem
  exact (isTokenChar_iff (cookie.isTokenChar_name _ hmem)).2.2 rfl

/-- The name of a cookie is not trimmed. -/
theorem trim_name (cookie : Cookie) : trim cookie.name = cookie.name :=
  trim_eq_self_of_forall fun c hc => (isTokenChar_iff (cookie.isTokenChar_name c hc)).1

end Cookie

namespace TokenExtractor

/-- The parts of a header are searched for the first cookie with the name and a value. -/
theorem findCookie_of_forall₂ {cookies : List Cookie} {parts : List Str}
    (h : List.Forall₂ (fun cookie part => trim part = trim cookie.text) cookies parts) (name : Str) :
    findCookie name parts = (Cookie.valueOf cookies name).map fun v => v.map plusToSpace := by
  rw [Cookie.valueOf]
  induction h with
  | nil => rfl
  | @cons cookie part cookies parts hpart hrest ih =>
    have hpercent : '%' ∉ cookie.value := fun hmem => (cookie.isCookieOctet_value _ hmem).2 rfl
    rw [findCookie, hpart, cookie.splitPair_text]
    dsimp only
    rw [cookie.trim_name, cookie.trimMatches_written, urlDecode_of_notMem_percent hpercent]
    by_cases hcarries : cookie.name = name ∧ cookie.value ≠ []
    · rw [if_pos hcarries, List.find?_cons_of_pos (by simpa [Cookie.carries] using hcarries)]
      rfl
    · rw [if_neg hcarries, List.find?_cons_of_neg (by simpa [Cookie.carries] using hcarries), ih]

/-- A header is split into the texts of its cookies, all but the first after a space. -/
theorem splitOn_header (cookie : Cookie) (cookies : List Cookie) :
    (Cookie.header (cookie :: cookies)).splitOn ';' =
      cookie.text :: cookies.map fun cookie => ' ' :: cookie.text := by
  have hclear : ∀ cookie : Cookie, ';' ∉ cookie.text := by
    intro cookie hmem
    exact (Cookie.clear_of_mem_text hmem).2 rfl
  rw [Cookie.header, List.map_cons, intercalate_cons_pad, List.splitOn_intercalate ';']
  · rw [List.map_map]
    rfl
  · intro part hpart
    rcases List.mem_cons.1 hpart with rfl | hmem
    · exact hclear cookie
    · obtain ⟨text, htext, rfl⟩ := List.mem_map.1 hmem
      obtain ⟨cookie', _, rfl⟩ := List.mem_map.1 htext
      rw [List.singleton_append, List.mem_cons, not_or]
      exact ⟨by decide, hclear cookie'⟩
  · exact List.cons_ne_nil _ _

/-- What is read from the header of a list of cookies: the value, with spaces for its pluses. -/
theorem parseCookie_header (cookies : List Cookie) (name : Str) :
    parseCookie (Cookie.header cookies) name =
      (Cookie.valueOf cookies name).map fun v => v.map plusToSpace := by
  cases cookies with
  | nil =>
    rw [parseCookie, Cookie.header, List.map_nil, List.intercalate_nil, List.splitOn_nil]
    have hempty : trimMatches '"' (trim (splitPair '=' (trim [])).2) = [] := by decide
    simp [findCookie, hempty, Cookie.valueOf]
  | cons cookie cookies =>
    rw [parseCookie, splitOn_header]
    refine findCookie_of_forall₂ (.cons rfl ?_) name
    rw [List.forall₂_map_right_iff, List.forall₂_same]
    exact fun cookie' _ => trim_space_cons cookie'.text

/-- The value that carries a token consists of octets. -/
theorem octets_of_valueOf {cookies : List Cookie} {name v : Str}
    (h : Cookie.valueOf cookies name = some v) :
    v ≠ [] ∧ ∀ c ∈ v, isWhitespace c = false := by
  obtain ⟨cookie, hfind, rfl⟩ := Option.map_eq_some_iff.1 h
  have hcarries := List.find?_some hfind
  simp only [Cookie.carries, Bool.and_eq_true, decide_eq_true_eq] at hcarries
  exact ⟨hcarries.2, fun c hc => (isCookieOctet_iff (cookie.isCookieOctet_value c hc).1).1⟩

/-- The value of the first cookie with a name and a value is returned with its pluses decoded to
spaces, so as it was written exactly when it contains none; where no cookie has the name and a
value, nothing is. After `Bearer` the same token is always returned as it was written. -/
theorem parseCookie_verbatim_iff (cookies : List Cookie) (name : Str) :
    parseCookie (Cookie.header cookies) name =
      (Cookie.valueOf cookies name).map (fun v => v.map plusToSpace) ∧
    (parseCookie (Cookie.header cookies) name = Cookie.valueOf cookies name ↔
      ∀ v, Cookie.valueOf cookies name = some v → '+' ∉ v) ∧
    ∀ v, Cookie.valueOf cookies name = some v →
      parseBearer (['B', 'e', 'a', 'r', 'e', 'r', ' '] ++ v) = .ok (some v) := by
  refine ⟨parseCookie_header cookies name, ?_, ?_⟩
  · rw [parseCookie_header]
    cases Cookie.valueOf cookies name with
    | none => simp
    | some v =>
      rw [Option.map_some, Option.some.injEq, map_plusToSpace_eq_iff]
      simp
  · intro v hv
    obtain ⟨hne, hspace⟩ := octets_of_valueOf hv
    rw [parseBearer_eq, bearerToken_bearer hne hspace]

/-- A cookie with one plus in its value. -/
def plusCookie : Cookie where
  name := ['t']
  value := ['a', '+', 'b']
  quoted := false
  name_ne_nil := by decide
  isTokenChar_name := by
    intro c hc
    rw [List.mem_singleton.1 hc]
    decide
  isCookieOctet_value := by
    intro c hc
    simp only [List.mem_cons, List.not_mem_nil, or_false] at hc
    rcases hc with rfl | rfl | rfl <;> decide

/-- The plus of a cookie comes back as a space. -/
theorem parseCookie_plusCookie :
    ¬ ∀ cookies name, parseCookie (Cookie.header cookies) name = Cookie.valueOf cookies name := by
  intro h
  exact absurd (h [plusCookie] ['t']) (by decide)

end TokenExtractor

end WsKit
