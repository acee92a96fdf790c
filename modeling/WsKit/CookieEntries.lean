import WsKit.Cookies

/-!
# Cookies in several header entries

A request may split its cookies over several entries, which stand for one header with `; `
between them. Searching that header is searching the entries in turn, but a request is searched
in its first entry only. What later entries hold is missed, and then a later source may answer.
-/

namespace WsKit.TokenExtractor

open Base

/-- The texts of the cookie entries of a request, in order. -/
def cookieEntries (parts : Parts) : List Str :=
  (parts.headers.filter fun entry => entry.1 = cookie).filterMap fun entry => HeaderValue.toStr entry.2

/-- All cookie entries are visible ASCII. -/
def VisibleCookies (parts : Parts) : Prop :=
  ∀ entry ∈ parts.headers, entry.1 = cookie → (HeaderValue.toStr entry.2).isSome = true

instance (parts : Parts) : Decidable (VisibleCookies parts) :=
  inferInstanceAs (Decidable (∀ entry ∈ parts.headers, _ → _))

/-- The cookie entries joined to one header. -/
def joinedCookies (parts : Parts) : Str := [';', ' '].intercalate (cookieEntries parts)

/-- A cookie that the first entry does not give, while all entries together give this token. -/
def Hides (entries : List Str) (name token : Str) : Prop :=
  (entries.head?.bind fun entry => parseCookie entry name) = none ∧
    (entries.findSome? fun entry => parseCookie entry name) = some token

/-! ### Searching a joined header -/

/-- The parts of two headers are searched one after the other. -/
theorem findCookie_append (name : Str) (xs ys : List Str) :
    findCookie name (xs ++ ys) = (findCookie name xs).or (findCookie name ys) := by
  induction xs with
  | nil => rfl
  | cons part xs ih =>
    rw [List.cons_append, findCookie, findCookie]
    split
    · rfl
    · exact ih

/-- White space before a header does not matter. -/
theorem parseCookie_space_cons (header name : Str) :
    parseCookie (' ' :: header) name = parseCookie header name := by
  have hspace : (' ' == ';') = false := by decide
  obtain ⟨part, rest, hsplit⟩ := List.exists_cons_of_ne_nil (List.splitOn_ne_nil ';' header)
  rw [parseCookie, parseCookie, List.splitOn_cons_eq_if_modifyHead, hspace, hsplit]
  simp only [Bool.false_eq_true, if_false, List.modifyHead_cons, findCookie, trim_space_cons]

/-- An empty header has no cookie. -/
theorem parseCookie_nil (name : Str) : parseCookie [] name = none :=
  parseCookie_header [] name

/-- Searching the joined header is searching the entries in turn. -/
theorem parseCookie_intercalate (entries : List Str) (name : Str) :
    parseCookie ([';', ' '].intercalate entries) name =
      entries.findSome? fun entry => parseCookie entry name := by
  induction entries with
  | nil => exact parseCookie_nil name
  | cons entry entries ih =>
    cases entries with
    | nil =>
      rw [List.intercalate_singleton, List.findSome?_cons]
      cases parseCookie entry name <;> rfl
    | cons next rest =>
      have hjoined : [';', ' '].intercalate (entry :: next :: rest) =
          entry ++ ';' :: ' ' :: [';', ' '].intercalate (next :: rest) := by
        rw [List.intercalate_cons_cons, List.append_assoc]
        rfl
      have hrest : findCookie name ((' ' :: [';', ' '].intercalate (next :: rest)).splitOn ';') =
          (next :: rest).findSome? fun entry => parseCookie entry name := by
        rw [← parseCookie, parseCookie_space_cons, ih]
      have hcons : (entry :: next :: rest).findSome? (fun entry => parseCookie entry name) =
          (parseCookie entry name).or
            ((next :: rest).findSome? fun entry => parseCookie entry name) := by
        rw [List.findSome?_cons]
        cases parseCookie entry name <;> rfl
      rw [parseCookie, hjoined, List.splitOn_append_cons_self, findCookie_append, hrest,
        ← parseCookie, hcons]

/-- A request is searched in its first entry. -/
theorem visible_cookie {parts : Parts} (h : VisibleCookies parts) :
    visible parts cookie = (cookieEntries parts).head? := by
  obtain ⟨headers⟩ := parts
  rw [visible, HeaderMap.get, cookieEntries]
  induction headers with
  | nil => rfl
  | cons entry headers ih =>
    by_cases hname : entry.1 = cookie
    · obtain ⟨s, hs⟩ := Option.isSome_iff_exists.1 (h entry List.mem_cons_self hname)
      rw [List.find?_cons_of_pos (by simpa using hname),
        List.filter_cons_of_pos (by simpa using hname), List.filterMap_cons, hs]
      exact hs
    · rw [List.find?_cons_of_neg (by simpa using hname), List.filter_cons_of_neg (by simpa using hname)]
      exact ih fun entry' hmem => h entry' (List.mem_cons_of_mem _ hmem)

/-! ### Sources that miss a token -/

/-- To split a list before one of its elements is to split at the head, or behind it. -/
theorem forall_eq_append_cons {α : Type*} {P : List α → α → List α → Prop} {x : α} {xs : List α} :
    (∀ before y after, x :: xs = before ++ y :: after → P before y after) ↔
      P [] x xs ∧ ∀ before y after, xs = before ++ y :: after → P (x :: before) y after := by
  constructor
  · intro h
    refine ⟨h [] x xs rfl, fun before y after heq => h (x :: before) y after ?_⟩
    rw [heq, List.cons_append]
  · rintro ⟨hhead, hbehind⟩ before y after heq
    cases before with
    | nil =>
      obtain ⟨rfl, rfl⟩ := List.cons.inj heq
      exact hhead
    | cons first before =>
      obtain ⟨rfl, htail⟩ := List.cons.inj heq
      exact hbehind before y after htail

/-- When the sources that differ are missed on the left and found on the right, the results are
equal exactly when the first token missed is found later. -/
theorem firstToken_eq_iff {look look' : TokenSourceKind → Outcome Empty (Option Str)}
    (htotal : ∀ src, ∃ found, look' src = .ok found)
    (hlook : ∀ src, look src = look' src ∨ look src = .ok none) (srcs : List TokenSourceKind) :
    firstToken look srcs = firstToken look' srcs ↔
      ∀ before src after, srcs = before ++ src :: after →
        (∀ src' ∈ before, look' src' = .ok none) → ∀ token, look src = .ok none →
        look' src = .ok (some token) → FindsFirst look after token := by
  induction srcs with
  | nil =>
    refine iff_of_true rfl fun before src after heq => ?_
    cases before <;> cases heq
  | cons src rest ih =>
    rw [forall_eq_append_cons]
    obtain ⟨found, hfound⟩ := htotal src
    cases found with
    | none =>
      have hmissed : look src = .ok none := (hlook src).elim (fun heq => heq.trans hfound) id
      rw [firstToken_cons_none hmissed, firstToken_cons_none hfound, ih]
      constructor
      · intro h
        refine ⟨fun _ token _ hright => ?_, fun before src' after heq hbefore => ?_⟩
        · rw [hfound] at hright
          cases hright
        · exact h before src' after heq (List.forall_mem_cons.1 hbefore).2
      · rintro ⟨-, h⟩ before src' after heq hbefore
        exact h before src' after heq (List.forall_mem_cons.2 ⟨hfound, hbefore⟩)
    | some v =>
      -- only the first source can be the one that misses a token
      have hbehind : ∀ before, ¬ ∀ src' ∈ src :: before, look' src' = .ok none := by
        intro before hbefore
        have hnone := hbefore src List.mem_cons_self
        rw [hfound] at hnone
        cases hnone
      rw [firstToken_cons_some hfound]
      rcases hlook src with heq | hmissed
      · refine iff_of_true (firstToken_cons_some (heq.trans hfound) rest)
          ⟨fun _ token hleft => ?_, fun before _ _ _ hbefore => (hbehind before hbefore).elim⟩
        rw [heq, hfound] at hleft
        cases hleft
      · rw [firstToken_cons_none hmissed, firstToken_eq_some_iff]
        constructor
        · intro hfinds
          refine ⟨fun _ token _ htoken => ?_, fun before _ _ _ hbefore => (hbehind before hbefore).elim⟩
          rw [hfound] at htoken
          obtain rfl : v = token := Option.some.inj (Except.ok.inj htoken)
          exact hfinds
        · rintro ⟨h, -⟩
          exact h (fun _ hmem => (List.not_mem_nil hmem).elim) v hmissed hfound

/-! ### Requests with several cookie entries -/

/-- What a source gives for the joined header and for the request. -/
theorem lookInRequest_joined {parts : Parts} (h : VisibleCookies parts) (query : Str)
    (src : TokenSourceKind) :
    lookInRequest parts query src =
        lookInTexts (visible parts authorization) (some (joinedCookies parts)) query src ∨
      lookInRequest parts query src = .ok none := by
  rw [lookInRequest_eq, visible_cookie h]
  cases src with
  | authorizationHeader => exact .inl rfl
  | queryParam name => exact .inl rfl
  | cookie name =>
    simp only [lookInTexts, Option.bind_some, joinedCookies, parseCookie_intercalate]
    cases cookieEntries parts with
    | nil => exact .inr rfl
    | cons entry entries =>
      rw [List.head?_cons, Option.bind_some, List.findSome?_cons]
      cases hfirst : parseCookie entry name with
      | some v => exact .inl rfl
      | none => exact .inr rfl

/-- The first entry misses a token exactly for a cookie that it hides. -/
theorem lookInRequest_misses_iff {parts : Parts} (h : VisibleCookies parts) (query : Str)
    (src : TokenSourceKind) (token : Str) :
    (lookInRequest parts query src = .ok none ∧
      lookInTexts (visible parts authorization) (some (joinedCookies parts)) query src =
        .ok (some token)) ↔
      ∃ name, src = .cookie name ∧ Hides (cookieEntries parts) name token := by
  rw [lookInRequest_eq, visible_cookie h]
  cases src with
  | cookie name =>
    simp [lookInTexts, joinedCookies, parseCookie_intercalate, Hides, pure, Except.pure]
  | authorizationHeader =>
    refine iff_of_false (fun hboth => ?_) (by simp)
    have hnone := hboth.1.symm.trans hboth.2
    cases hnone
  | queryParam name =>
    refine iff_of_false (fun hboth => ?_) (by simp)
    have hnone := hboth.1.symm.trans hboth.2
    cases hnone

/-- Extraction from a request is extraction with its cookie entries joined, exactly when for the
first source that only a later entry serves the same token is found further on. It is so for all
extractors exactly when the first entry hides no cookie. -/
theorem extractToken_eq_joined_iff {parts : Parts} (hvisible : VisibleCookies parts) (query : Str) :
    (∀ extractor, extractToken extractor parts query = extractFromParts extractor
        (visible parts authorization) (some (joinedCookies parts)) query ↔
      ∀ before name after token, extractor.sources = before ++ .cookie name :: after →
        (∀ src ∈ before, lookInTexts (visible parts authorization) (some (joinedCookies parts))
          query src = .ok none) →
        Hides (cookieEntries parts) name token →
        FindsFirst (lookInRequest parts query) after token) ∧
    ((∀ extractor, extractToken extractor parts query = extractFromParts extractor
        (visible parts authorization) (some (joinedCookies parts)) query) ↔
      ∀ name token, ¬ Hides (cookieEntries parts) name token) := by
  have hone : ∀ extractor, extractToken extractor parts query = extractFromParts extractor
        (visible parts authorization) (some (joinedCookies parts)) query ↔
      ∀ before name after token, extractor.sources = before ++ .cookie name :: after →
        (∀ src ∈ before, lookInTexts (visible parts authorization) (some (joinedCookies parts))
          query src = .ok none) →
        Hides (cookieEntries parts) name token →
        FindsFirst (lookInRequest parts query) after token := by
    intro extractor
    rw [extractToken, extractFromParts, firstToken_eq_iff (exists_lookInTexts _ _ query)
      (lookInRequest_joined hvisible query)]
    constructor
    · intro h before name after token hsplit hbefore hhides
      obtain ⟨hleft, hright⟩ :=
        (lookInRequest_misses_iff hvisible query (.cookie name) token).2 ⟨name, rfl, hhides⟩
      exact h before (.cookie name) after hsplit hbefore token hleft hright
    · intro h before src after hsplit hbefore token hleft hright
      obtain ⟨name, rfl, hhides⟩ :=
        (lookInRequest_misses_iff hvisible query src token).1 ⟨hleft, hright⟩
      exact h before name after token hsplit hbefore hhides
  refine ⟨hone, ?_, ?_⟩
  · intro h name token hhides
    obtain ⟨before, src, after, heq, -⟩ := (hone ⟨[.cookie name]⟩).1 (h _) [] name [] token rfl
      (fun _ hmem => (List.not_mem_nil hmem).elim) hhides
    cases before <;> cases heq
  · intro h extractor
    exact (hone extractor).2 fun before name after token _ _ hhides => (h name token hhides).elim

/-- A request with these cookie entries only. -/
def cookieRequest (entries : List Str) : Parts := ⟨entries.map fun entry => (cookie, utf8 entry)⟩

/-- A cookie of the first entry is found behind both. -/
theorem extractToken_eq_joined_first :
    extractToken ⟨[.cookie ['t']]⟩ (cookieRequest [['t', '=', 'v'], ['a', '=', 'b']]) [] =
      extractFromParts ⟨[.cookie ['t']]⟩
        (visible (cookieRequest [['t', '=', 'v'], ['a', '=', 'b']]) authorization)
        (some (joinedCookies (cookieRequest [['t', '=', 'v'], ['a', '=', 'b']]))) [] := by
  refine ((extractToken_eq_joined_iff (by decide) []).1 ⟨[.cookie ['t']]⟩).2 ?_
  intro before name after token hsplit hbefore hhides
  cases before with
  | nil =>
    obtain ⟨hname, rfl⟩ := List.cons.inj hsplit
    obtain rfl := TokenSourceKind.cookie.inj hname
    exact absurd hhides.1 (by decide)
  | cons src before =>
    have hlength := congrArg List.length hsplit
    simp at hlength

/-- A cookie of the second entry is missed. -/
theorem secondEntry_missed :
    ¬ ∀ (extractor : TokenExtractor) (parts : Parts) (query : Str), VisibleCookies parts →
      extractToken extractor parts query = extractFromParts extractor (visible parts authorization)
        (some (joinedCookies parts)) query := by
  intro h
  have hboth := h ⟨[.cookie ['t']]⟩ (cookieRequest [['a', '=', 'b'], ['t', '=', 'v']]) [] (by decide)
  exact absurd hboth (by decide)

end WsKit.TokenExtractor
