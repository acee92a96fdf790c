import WsKit.Base.AsciiBytes
import WsKit.Base.Fields
import WsKit.Base.Outcome
import WsKit.UrlDecode

/-!
# Token extraction

The strategies of `src/extractor.rs`, tried in order. A request gives its headers, of which the
first with a name counts, and the query string is passed apart. The only slice is taken after
the check of its boundary; the outcomes show that nothing panics.
-/

namespace WsKit

open Base

/-- Where to look for a token. -/
inductive TokenSourceKind where
  | authorizationHeader
  | queryParam (name : Str)
  | cookie (name : Str)
  deriving DecidableEq

/-- Ordered sources of tokens. -/
structure TokenExtractor where
  sources : List TokenSourceKind

/-- A header value, as received. -/
abbrev HeaderValue := Bytes

/-- The headers in the order received; a name may occur several times. -/
abbrev HeaderMap := List (Str × HeaderValue)

/-- The first value under a name. -/
def HeaderMap.get (headers : HeaderMap) (name : Str) : Option HeaderValue :=
  (headers.find? fun entry => entry.1 = name).map Prod.snd

/-- Visible ASCII: printable characters, the space and the tab. -/
def isVisibleAscii (b : UInt8) : Bool := (32 ≤ b && b < 127) || b = 9

/-- The text of a header value that is visible ASCII. -/
def HeaderValue.toStr (value : HeaderValue) : Option Str :=
  if value.all isVisibleAscii then some (value.map fun b => Char.ofNat b.toNat) else none

/-- The head of a request. -/
structure Parts where
  headers : HeaderMap

/-- The name of the header that carries credentials. -/
def authorization : Str := ['a', 'u', 't', 'h', 'o', 'r', 'i', 'z', 'a', 't', 'i', 'o', 'n']

/-- The name of the header that carries cookies. -/
def cookie : Str := ['c', 'o', 'o', 'k', 'i', 'e']

/-- The scheme of a bearer token, with the space that separates them. -/
def bearerPrefix : Bytes := utf8 ['b', 'e', 'a', 'r', 'e', 'r', ' ']

namespace TokenExtractor

/-- The default sources. -/
def default : TokenExtractor :=
  ⟨[.authorizationHeader, .queryParam ['t', 'o', 'k', 'e', 'n'],
    .queryParam ['a', 'c', 'c', 'e', 's', 's', '_', 't', 'o', 'k', 'e', 'n']]⟩

/-- Add a source. -/
def withSource (extractor : TokenExtractor) (src : TokenSourceKind) : TokenExtractor :=
  ⟨extractor.sources ++ [src]⟩

/-- The token of an `Authorization` value with the scheme `Bearer`, in any case. -/
def parseBearer (s : Str) : Outcome Empty (Option Str) :=
  let bytes := utf8 s
  if bytes.length < 7 then return none
  else if ¬ eqIgnoreAsciiCase (bytes.take 7) bearerPrefix then return none
  else if ¬ isCharBoundary s 7 then return none
  else do
    let token := trim (← Outcome.orPanic (sliceFrom s 7))
    return if token = [] then none else some token

/-- The first nonempty value among the pairs with a name. -/
def findParam (name : Str) : List Str → Option Str
  | [] => none
  | pair :: rest =>
    if pair = [] then findParam name rest
    else if urlDecode (splitPair '=' pair).1 = name then
      if urlDecode (splitPair '=' pair).2 ≠ [] then some (urlDecode (splitPair '=' pair).2)
      else findParam name rest
    else findParam name rest

/-- The first nonempty value of a query parameter. -/
def extractQueryParam (query name : Str) : Option Str :=
  let query := trimStartMatches '?' query
  if query = [] then none else findParam name (query.splitOn '&')

/-- The first nonempty value among the cookies with a name. -/
def findCookie (name : Str) : List Str → Option Str
  | [] => none
  | part :: rest =>
    let pair := splitPair '=' (trim part)
    let v := trimMatches '"' (trim pair.2)
    if trim pair.1 = name ∧ v ≠ [] then some (urlDecode v) else findCookie name rest

/-- The first nonempty value of a cookie. -/
def parseCookie (header name : Str) : Option Str := findCookie name (header.splitOn ';')

/-- The bearer token of a request. -/
def extractBearer (parts : Parts) : Outcome Empty (Option Str) :=
  match (parts.headers.get authorization).bind HeaderValue.toStr with
  | none => return none
  | some s => parseBearer s

/-- The cookie of a request. -/
def extractCookie (parts : Parts) (name : Str) : Option Str :=
  ((parts.headers.get cookie).bind HeaderValue.toStr).bind fun s => parseCookie s name

/-- What a source gives for a request. -/
def lookInRequest (parts : Parts) (query : Str) : TokenSourceKind → Outcome Empty (Option Str)
  | .authorizationHeader => extractBearer parts
  | .queryParam name => return extractQueryParam query name
  | .cookie name => return extractCookie parts name

/-- What a source gives for the texts of the headers; an empty bearer token does not count. -/
def lookInTexts (authHeader cookieHeader : Option Str) (query : Str) :
    TokenSourceKind → Outcome Empty (Option Str)
  | .authorizationHeader =>
    match authHeader with
    | none => return none
    | some s => do
      let v ← parseBearer s
      return v.filter fun v => v ≠ []
  | .queryParam name => return extractQueryParam query name
  | .cookie name => return cookieHeader.bind fun c => parseCookie c name

/-- Try the sources in order. -/
def firstToken (look : TokenSourceKind → Outcome Empty (Option Str)) :
    List TokenSourceKind → Outcome Empty (Option Str)
  | [] => return none
  | src :: rest => do
    match ← look src with
    | some v => return some v
    | none => firstToken look rest

/-- Extract the first token found in a request, according to source order. -/
def extractToken (extractor : TokenExtractor) (parts : Parts) (query : Str) :
    Outcome Empty (Option Str) :=
  firstToken (lookInRequest parts query) extractor.sources

/-- Extract the first token found in the texts of the headers, without a request. -/
def extractFromParts (extractor : TokenExtractor) (authHeader cookieHeader : Option Str)
    (query : Str) : Outcome Empty (Option Str) :=
  firstToken (lookInTexts authHeader cookieHeader query) extractor.sources

/-! ### Bearer tokens -/

/-- The token read from an `Authorization` value. -/
def bearerToken (s : Str) : Option Str :=
  if eqIgnoreAsciiCase ((utf8 s).take 7) bearerPrefix then
    ((sliceFrom s 7).map trim).filter fun token => token ≠ []
  else none

/-- Too short a value does not begin with the scheme. -/
theorem not_eqIgnoreAsciiCase_of_short {bytes : Bytes} (h : bytes.length < 7) :
    eqIgnoreAsciiCase (bytes.take 7) bearerPrefix = false := by
  rw [eqIgnoreAsciiCase, decide_eq_false_iff_not]
  intro heq
  have hlength := congrArg List.length heq
  have hseven : bearerPrefix.length = 7 := by decide
  rw [List.length_map, List.length_map, List.length_take, hseven] at hlength
  omega

/-- Reading a bearer token does not panic: the slice is taken at a character boundary. -/
theorem parseBearer_eq (s : Str) : parseBearer s = .ok (bearerToken s) := by
  rw [parseBearer, bearerToken]
  by_cases hshort : (utf8 s).length < 7
  · rw [not_eqIgnoreAsciiCase_of_short hshort]
    simp only [if_pos hshort]
    rfl
  · simp only [if_neg hshort]
    cases hscheme : eqIgnoreAsciiCase ((utf8 s).take 7) bearerPrefix with
    | false => rfl
    | true =>
      cases hsplit : splitAtByte s 7 with
      | none => simp [isCharBoundary, sliceFrom, hsplit, pure, Except.pure]
      | some parts =>
        simp only [isCharBoundary, sliceFrom, hsplit, Option.isSome_some, Option.map_some,
          Outcome.orPanic_some, bind, Except.bind, if_pos]
        by_cases hempty : trim parts.2 = []
        · rw [Option.filter_some_neg (by simpa using hempty), if_pos hempty]
          rfl
        · rw [Option.filter_some_pos (by simpa using hempty), if_neg hempty]
          rfl

/-- A bearer token is not empty. -/
theorem ne_nil_of_bearerToken {s v : Str} (h : bearerToken s = some v) : v ≠ [] := by
  rw [bearerToken, Option.ite_none_right_eq_some, Option.filter_eq_some_iff] at h
  simpa using h.2.2

/-- The text of the scheme, with the space that separates it from the token. -/
def bearerScheme : Str := ['b', 'e', 'a', 'r', 'e', 'r', ' ']

/-- The bytes of the scheme are found exactly in front of texts that begin with it. -/
theorem beginsWithScheme_iff (s : Str) :
    eqIgnoreAsciiCase ((utf8 s).take 7) bearerPrefix = true ↔
      ∃ scheme rest, s = scheme ++ rest ∧ toAsciiLowercase scheme = bearerScheme := by
  have hfold : toAsciiLowercase bearerScheme = bearerScheme := by decide
  exact eqIgnoreAsciiCase_take_iff hfold

/-- The scheme ends at byte seven, in any case. -/
theorem splitAtByte_scheme {scheme : Str} (h : toAsciiLowercase scheme = bearerScheme) (rest : Str) :
    splitAtByte (scheme ++ rest) 7 = some (scheme, rest) := by
  have hlen : byteLen scheme = 7 := by
    rw [← byteLen_toAsciiLowercase, h]
    decide
  rw [← hlen]
  exact splitAtByte_byteLen scheme rest

/-- Behind the scheme everything but white space at the ends is the token. -/
theorem bearerToken_scheme_eq_some_iff {scheme : Str} (h : toAsciiLowercase scheme = bearerScheme)
    {rest token : Str} :
    bearerToken (scheme ++ rest) = some token ↔ trim rest = token ∧ token ≠ [] := by
  rw [bearerToken, if_pos ((beginsWithScheme_iff _).2 ⟨scheme, rest, rfl, h⟩), sliceFrom,
    splitAtByte_scheme h, Option.map_some, Option.map_some, Option.filter_eq_some_iff]
  simp

/-- What follows the scheme is the token. -/
theorem bearerToken_bearer {v : Str} (hne : v ≠ []) (hv : ∀ c ∈ v, isWhitespace c = false) :
    bearerToken (['B', 'e', 'a', 'r', 'e', 'r', ' '] ++ v) = some v := by
  have hfold : toAsciiLowercase ['B', 'e', 'a', 'r', 'e', 'r', ' '] = bearerScheme := by decide
  exact (bearerToken_scheme_eq_some_iff hfold).2 ⟨trim_eq_self_of_forall hv, hne⟩

/-! ### The two entry points -/

/-- The text of a header, when its first value is visible ASCII. -/
def visible (parts : Parts) (name : Str) : Option Str :=
  (parts.headers.get name).bind HeaderValue.toStr

/-- A source gives the same for a request and for the texts of its headers. -/
theorem lookInRequest_eq (parts : Parts) (query : Str) (src : TokenSourceKind) :
    lookInRequest parts query src =
      lookInTexts (visible parts authorization) (visible parts cookie) query src := by
  cases src with
  | authorizationHeader =>
    cases hheader : visible parts authorization with
    | none =>
      rw [lookInRequest, extractBearer, ← visible, hheader]
      rfl
    | some s =>
      have hsame : (bearerToken s).filter (fun v => v ≠ []) = bearerToken s := by
        cases htoken : bearerToken s with
        | none => rfl
        | some v => exact Option.filter_some_pos (by simpa using ne_nil_of_bearerToken htoken)
      rw [lookInRequest, extractBearer, ← visible, hheader]
      simp only [lookInTexts, parseBearer_eq, bind, Except.bind, hsame]
      rfl
  | queryParam name => rfl
  | cookie name => rfl

/-- Looking in the texts of headers does not panic. -/
theorem exists_lookInTexts (authHeader cookieHeader : Option Str) (query : Str)
    (src : TokenSourceKind) :
    ∃ found, lookInTexts authHeader cookieHeader query src = .ok found := by
  cases src with
  | authorizationHeader =>
    cases authHeader with
    | none => exact ⟨none, rfl⟩
    | some s =>
      refine ⟨(bearerToken s).filter fun v => v ≠ [], ?_⟩
      simp only [lookInTexts, parseBearer_eq, bind, Except.bind]
      rfl
  | queryParam name => exact ⟨_, rfl⟩
  | cookie name => exact ⟨_, rfl⟩

section FirstToken

variable {look : TokenSourceKind → Outcome Empty (Option Str)} {src : TokenSourceKind} {token : Str}

/-- A source that gives a token ends the search. -/
theorem firstToken_cons_some (h : look src = .ok (some token)) (rest : List TokenSourceKind) :
    firstToken look (src :: rest) = .ok (some token) := by
  rw [firstToken, h]
  rfl

/-- A source that gives nothing is passed over. -/
theorem firstToken_cons_none (h : look src = .ok none) (rest : List TokenSourceKind) :
    firstToken look (src :: rest) = firstToken look rest := by
  rw [firstToken, h]
  rfl

/-- Of the sources, the first that gives anything gives this token. -/
def FindsFirst (look : TokenSourceKind → Outcome Empty (Option Str)) (srcs : List TokenSourceKind)
    (token : Str) : Prop :=
  ∃ before src after, srcs = before ++ src :: after ∧
    (∀ src' ∈ before, look src' = .ok none) ∧ look src = .ok (some token)

/-- The first of the sources gives the token, or gives nothing and a later one does. -/
theorem findsFirst_cons {rest : List TokenSourceKind} :
    FindsFirst look (src :: rest) token ↔
      look src = .ok (some token) ∨ look src = .ok none ∧ FindsFirst look rest token := by
  constructor
  · rintro ⟨before, src', after, heq, hbefore, hsrc'⟩
    cases before with
    | nil =>
      obtain ⟨rfl, rfl⟩ := List.cons.inj heq
      exact .inl hsrc'
    | cons first before =>
      obtain ⟨rfl, rfl⟩ := List.cons.inj heq
      obtain ⟨hfirst, hbefore⟩ := List.forall_mem_cons.1 hbefore
      exact .inr ⟨hfirst, before, src', after, rfl, hbefore, hsrc'⟩
  · rintro (hsrc | ⟨hsrc, before, src', after, rfl, hbefore, hsrc'⟩)
    · exact ⟨[], src, rest, rfl, fun _ hmem => (List.not_mem_nil hmem).elim, hsrc⟩
    · exact ⟨src :: before, src', after, rfl, List.forall_mem_cons.2 ⟨hsrc, hbefore⟩, hsrc'⟩

/-- A token is found when some source gives it after sources that give nothing. -/
theorem firstToken_eq_some_iff {srcs : List TokenSourceKind} :
    firstToken look srcs = .ok (some token) ↔ FindsFirst look srcs token := by
  induction srcs with
  | nil =>
    constructor
    · intro h
      cases h
    · rintro ⟨before, src, after, heq, -⟩
      cases before <;> cases heq
  | cons src rest ih =>
    rw [findsFirst_cons]
    constructor
    · intro h
      obtain ⟨found, hfound, hnext⟩ := Outcome.bind_eq_ok_iff.1 h
      cases found with
      | some v =>
        obtain rfl : v = token := by simpa [pure, Except.pure] using hnext
        exact .inl hfound
      | none => exact .inr ⟨hfound, ih.1 hnext⟩
    · rintro (hsrc | ⟨hsrc, hrest⟩)
      · exact firstToken_cons_some hsrc rest
      · rw [firstToken_cons_none hsrc]
        exact ih.2 hrest

/-- The first token found comes from a source. -/
theorem exists_of_firstToken {srcs : List TokenSourceKind}
    (h : firstToken look srcs = .ok (some token)) : ∃ src ∈ srcs, look src = .ok (some token) := by
  obtain ⟨before, src, after, rfl, -, hsrc⟩ := firstToken_eq_some_iff.1 h
  exact ⟨src, List.mem_append_right before List.mem_cons_self, hsrc⟩

/-- Sources that do not panic are an ordered choice. -/
theorem firstToken_append (hlook : ∀ src, ∃ found, look src = .ok found)
    (xs ys : List TokenSourceKind) :
    ∃ first second, firstToken look xs = .ok first ∧ firstToken look ys = .ok second ∧
      firstToken look (xs ++ ys) = .ok (first.or second) := by
  have htotal : ∀ srcs, ∃ found, firstToken look srcs = .ok found := by
    intro srcs
    induction srcs with
    | nil => exact ⟨none, rfl⟩
    | cons src rest ih =>
      obtain ⟨found, hfound⟩ := hlook src
      cases found with
      | some v => exact ⟨some v, firstToken_cons_some hfound rest⟩
      | none =>
        rw [firstToken_cons_none hfound]
        exact ih
  obtain ⟨second, hsecond⟩ := htotal ys
  induction xs with
  | nil => exact ⟨none, second, rfl, hsecond, hsecond⟩
  | cons src rest ih =>
    obtain ⟨found, hfound⟩ := hlook src
    cases found with
    | some v =>
      refine ⟨some v, second, firstToken_cons_some hfound rest, hsecond, ?_⟩
      exact firstToken_cons_some hfound (rest ++ ys)
    | none =>
      rw [List.cons_append, firstToken_cons_none hfound, firstToken_cons_none hfound]
      exact ih

end FirstToken

/-- The two entry points agree on every request, and neither panics. Extraction with one list of
sources followed by another, or by one more source, is extraction with the first list if that
finds a token, and with the rest otherwise. -/
theorem extractToken_eq_extractFromParts (parts : Parts) (query : Str) :
    (∀ extractor, extractToken extractor parts query =
      extractFromParts extractor (visible parts authorization) (visible parts cookie) query) ∧
    (∀ authHeader cookieHeader xs ys, ∃ first second,
      extractFromParts ⟨xs⟩ authHeader cookieHeader query = .ok first ∧
      extractFromParts ⟨ys⟩ authHeader cookieHeader query = .ok second ∧
      extractFromParts ⟨xs ++ ys⟩ authHeader cookieHeader query = .ok (first.or second)) ∧
    (∀ xs ys, ∃ first second, extractToken ⟨xs⟩ parts query = .ok first ∧
      extractToken ⟨ys⟩ parts query = .ok second ∧
      extractToken ⟨xs ++ ys⟩ parts query = .ok (first.or second)) ∧
    ∀ extractor src, ∃ first second, extractToken extractor parts query = .ok first ∧
      lookInRequest parts query src = .ok second ∧
      extractToken (withSource extractor src) parts query = .ok (first.or second) := by
  have hlook : lookInRequest parts query =
      lookInTexts (visible parts authorization) (visible parts cookie) query :=
    funext (lookInRequest_eq parts query)
  have htotal : ∀ src, ∃ found, lookInRequest parts query src = .ok found := by
    rw [hlook]
    exact exists_lookInTexts _ _ query
  refine ⟨?_, ?_, firstToken_append htotal, ?_⟩
  · intro extractor
    rw [extractToken, extractFromParts, hlook]
  · intro authHeader cookieHeader
    exact firstToken_append (exists_lookInTexts authHeader cookieHeader query)
  · intro extractor src
    obtain ⟨first, second, hfirst, hsecond, hboth⟩ :=
      firstToken_append htotal extractor.sources [src]
    refine ⟨first, second, hfirst, ?_, hboth⟩
    obtain ⟨found, hfound⟩ := htotal src
    rw [firstToken, hfound] at hsecond
    rw [hfound]
    cases found with
    | some v => exact hsecond
    | none => exact hsecond

end TokenExtractor

end WsKit
