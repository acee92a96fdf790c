import WsKit.Base.Ascii
import WsKit.Base.Decimal
import WsKit.Base.Outcome
import Mathlib.Data.List.Infix

/-!
# Origin normalization and the allow-list decision

The functions of `src/origin.rs`. Slices are taken at byte offsets and panic off a
character boundary, so each function returns an outcome whose only fault is a panic. The
specification of `splitAuthority` shows that none occurs, and every later result is stated
on the values returned.
-/

namespace WsKit

open Base

/-- The separator between a scheme and its authority. -/
def schemeSeparator : Str := [':', '/', '/']

/-- Split `host[:port]`, handling bracketed IPv6 hosts. -/
def splitAuthority (authority : Str) : Outcome Empty (Str × Option Str) :=
  if ['['].isPrefixOf authority then
    match find ']' authority with
    | some close => do
      let rest ← Outcome.orPanic (sliceFrom authority (close + 1))
      match stripPrefix [':'] rest with
      | some port => do
        let host ← Outcome.orPanic (sliceTo authority (close + 1))
        return (host, some port)
      | none => return (authority, none)
    | none => return (authority, none)
  else
    match splitOnce [':'] authority with
    | some (host, port) => return (host, some port)
    | none => return (authority, none)

/-- The port a scheme implies. -/
def isDefaultPort (scheme port : Str) : Bool :=
  match parseU16 port with
  | some p =>
    (scheme == ['h', 't', 't', 'p'] && p == 80) || (scheme == ['h', 't', 't', 'p', 's'] && p == 443) ||
      (scheme == ['w', 's'] && p == 80) || (scheme == ['w', 's', 's'] && p == 443)
  | none => false

/-- The text of an origin: lower-case scheme and host, and any port other than the default. -/
def normalizeOrigin (origin : Str) : Outcome Empty Str :=
  let origin := trim origin
  match splitOnce schemeSeparator origin with
  | none => return toAsciiLowercase origin
  | some (scheme, authority) => do
    let scheme := toAsciiLowercase scheme
    let (host, port) ← splitAuthority authority
    let out := scheme ++ schemeSeparator ++ toAsciiLowercase host
    match port with
    | some port =>
      if port ≠ [] ∧ isDefaultPort scheme port = false then return out ++ [':'] ++ port
      else return out
    | none => return out

/-- Some entry normalizes to the given text; entries after the first match are not examined. -/
def anyNormalizesTo (normalized : Str) : List Str → Outcome Empty Bool
  | [] => return false
  | entry :: rest => do
    if (← normalizeOrigin entry) = normalized then return true else anyNormalizesTo normalized rest

/-- Decide whether an upgrade request may proceed, from its `Origin` and the allow-list. -/
def originAllowed (origin : Option Str) (allowedOrigins : List Str) : Outcome Empty Bool :=
  if allowedOrigins = [] then return true
  else
    match origin with
    | none => return false
    | some origin => do
      let normalized ← normalizeOrigin origin
      anyNormalizesTo normalized allowedOrigins

/-- How an authority was divided, in terms of the text alone. -/
inductive AuthoritySplit : Str → Str → Option Str → Prop where
  | bracketPort (inner port : Str) (h : ']' ∉ inner) :
      AuthoritySplit ('[' :: inner ++ ']' :: ':' :: port) ('[' :: inner ++ [']']) (some port)
  | bracket (inner rest : Str) (h : ']' ∉ inner) (hrest : ∀ port, rest ≠ ':' :: port) :
      AuthoritySplit ('[' :: inner ++ ']' :: rest) ('[' :: inner ++ ']' :: rest) none
  | unclosed (inner : Str) (h : ']' ∉ inner) : AuthoritySplit ('[' :: inner) ('[' :: inner) none
  | port (host port : Str) (h : ':' ∉ host) (hhead : ∀ rest, host ≠ '[' :: rest) :
      AuthoritySplit (host ++ ':' :: port) host (some port)
  | plain (host : Str) (h : ':' ∉ host) (hhead : ∀ rest, host ≠ '[' :: rest) :
      AuthoritySplit host host none

/-- Every authority has one of the five forms. -/
theorem exists_authoritySplit (authority : Str) : ∃ host port, AuthoritySplit authority host port := by
  by_cases hb : ∃ rest, authority = '[' :: rest
  · obtain ⟨rest, rfl⟩ := hb
    by_cases hclose : ']' ∈ rest
    · obtain ⟨inner, tail, rfl, hinner⟩ := List.eq_append_cons_of_mem hclose
      by_cases hport : ∃ port, tail = ':' :: port
      · obtain ⟨port, rfl⟩ := hport
        exact ⟨_, _, .bracketPort inner port hinner⟩
      · exact ⟨_, _, .bracket inner tail hinner fun port h => hport ⟨port, h⟩⟩
    · exact ⟨_, _, .unclosed rest hclose⟩
  · have hhead : ∀ rest, authority ≠ '[' :: rest := fun rest h => hb ⟨rest, h⟩
    cases hs : splitOnce [':'] authority with
    | some parts =>
      obtain ⟨host, port⟩ := parts
      have happ := splitOnce_eq_append hs
      rw [List.append_assoc, List.singleton_append] at happ
      subst happ
      refine ⟨_, _, .port host port (notMem_of_splitOnce_singleton hs) fun rest h => ?_⟩
      exact hhead (rest ++ ':' :: port) (by rw [h, List.cons_append])
    | none =>
      refine ⟨_, _, .plain authority (fun hmem => ?_) hhead⟩
      exact splitOnce_eq_none_iff.mp hs ((List.singleton_infix_iff ':' authority).mpr hmem)

/-- A closing bracket is found at the end of the inner text. -/
private theorem find_close (inner rest : Str) (h : ']' ∉ inner) :
    find ']' ('[' :: inner ++ ']' :: rest) = some (byteLen ('[' :: inner)) :=
  find_eq_some_iff.mpr ⟨'[' :: inner, rest, rfl, by simp [h], rfl⟩

/-- The byte after the closing bracket is a character boundary. -/
private theorem slice_close (inner rest : Str) :
    sliceFrom ('[' :: inner ++ ']' :: rest) (byteLen ('[' :: inner) + 1) = some rest ∧
      sliceTo ('[' :: inner ++ ']' :: rest) (byteLen ('[' :: inner) + 1) =
        some ('[' :: inner ++ [']']) := by
  have hlen : byteLen ('[' :: inner) + 1 = byteLen ('[' :: inner ++ [']']) := by
    rw [byteLen_append]
    rfl
  have hsplit : '[' :: inner ++ ']' :: rest = ('[' :: inner ++ [']']) ++ rest := by simp
  rw [hlen, hsplit]
  exact ⟨sliceFrom_byteLen _ _, sliceTo_byteLen _ _⟩

/-- The code divides an authority as its form says, without a panic. -/
theorem AuthoritySplit.splitAuthority_eq {authority host : Str} {port : Option Str}
    (h : AuthoritySplit authority host port) : splitAuthority authority = .ok (host, port) := by
  cases h with
  | bracketPort inner port hinner =>
    obtain ⟨hfrom, hto⟩ := slice_close inner (':' :: port)
    have hp : stripPrefix [':'] (':' :: port) = some port := stripPrefix_append [':'] port
    rw [splitAuthority, if_pos (by simp), find_close _ _ hinner]
    simp only [hfrom, hto, Outcome.orPanic_some, bind, Except.bind, hp]
    rfl
  | bracket inner rest hinner hrest =>
    obtain ⟨hfrom, -⟩ := slice_close inner rest
    have hp : stripPrefix [':'] rest = none := by
      rw [Option.eq_none_iff_forall_not_mem]
      intro port hmem
      exact hrest port (stripPrefix_eq_some_iff.mp hmem)
    rw [splitAuthority, if_pos (by simp), find_close _ _ hinner]
    simp only [hfrom, Outcome.orPanic_some, bind, Except.bind, hp]
    rfl
  | unclosed inner hinner =>
    have hf : find ']' ('[' :: inner) = none := find_eq_none_iff.mpr (by simp [hinner])
    rw [splitAuthority, if_pos (by simp), hf]
    rfl
  | port host port hhost hhead =>
    have hb : ¬ ['['].isPrefixOf (host ++ ':' :: port) = true := by
      cases host with
      | nil => simp
      | cons c host =>
        have hc : c ≠ '[' := fun hc => hhead host (by rw [hc])
        simp [Ne.symm hc]
    have hs : splitOnce [':'] (host ++ ':' :: port) = some (host, port) := by
      simpa using splitOnce_of_notMem [] port hhost
    rw [splitAuthority, if_neg hb, hs]
    rfl
  | plain _ hhost hhead =>
    have hb : ¬ ['['].isPrefixOf authority = true := by
      rw [List.isPrefixOf_iff_prefix]
      rintro ⟨t, rfl⟩
      exact hhead t rfl
    have hs : splitOnce [':'] authority = none :=
      splitOnce_eq_none_iff.mpr fun hmem => hhost ((List.singleton_infix_iff ':' authority).mp hmem)
    rw [splitAuthority, if_neg hb, hs]
    rfl

/-- An authority has one form. -/
theorem AuthoritySplit.unique {authority host host' : Str} {port port' : Option Str}
    (h : AuthoritySplit authority host port) (h' : AuthoritySplit authority host' port') :
    host = host' ∧ port = port' := by
  have heq := h.splitAuthority_eq.symm.trans h'.splitAuthority_eq
  exact Prod.mk.inj (Except.ok.inj heq)

/-- Without a port the host is the authority. -/
theorem AuthoritySplit.host_eq {authority host : Str} (h : AuthoritySplit authority host none) :
    host = authority := by
  cases h <;> rfl

/-- A port stands behind the host and a colon. -/
theorem AuthoritySplit.eq_append {authority host port : Str}
    (h : AuthoritySplit authority host (some port)) : authority = host ++ ':' :: port := by
  cases h with
  | bracketPort inner _ hinner => simp
  | port _ _ hhost hhead => rfl

/-- What a division of an authority into host and port keeps: no character is lost or made up, the
first closing bracket decides behind an opening one, and elsewhere the first colon. -/
structure LosslessSplit (authority host : Str) (port : Option Str) : Prop where
  whole : port = none → host = authority
  joined : ∀ p, port = some p → authority = host ++ ':' :: p
  bracketed : authority.head? = some '[' →
    (port.isSome = true ↔
      ∃ inner rest, authority = inner ++ ']' :: ':' :: rest ∧ ']' ∉ inner) ∧
    (port.isSome = true → ∃ inner, host = inner ++ [']'] ∧ ']' ∉ inner)
  unbracketed : authority.head? ≠ some '[' →
    (port.isSome = true ↔ ':' ∈ authority) ∧ (port.isSome = true → ':' ∉ host)

/-- Text from an opening bracket up to the first closing one. -/
private theorem close_notMem {inner : Str} (h : ']' ∉ inner) : ']' ∉ '[' :: inner :=
  List.not_mem_cons_of_ne_of_not_mem (by decide) h

/-- Every form is a lossless division. -/
theorem AuthoritySplit.lossless {authority host : Str} {port : Option Str}
    (h : AuthoritySplit authority host port) : LosslessSplit authority host port where
  whole hport := by
    subst hport
    exact h.host_eq
  joined p hport := by
    subst hport
    exact h.eq_append
  bracketed hopen := by
    cases h with
    | bracketPort inner port hinner =>
      have hclose := close_notMem hinner
      exact ⟨iff_of_true rfl ⟨_, port, rfl, hclose⟩, fun _ => ⟨_, rfl, hclose⟩⟩
    | bracket inner rest hinner hrest =>
      refine ⟨iff_of_false (by simp) ?_, fun hsome => by cases hsome⟩
      rintro ⟨inner', rest', heq, hinner'⟩
      exact hrest rest' (append_cons_inj_of_notMem (close_notMem hinner) hinner' heq).2
    | unclosed inner hinner =>
      refine ⟨iff_of_false (by simp) ?_, fun hsome => by cases hsome⟩
      rintro ⟨inner', rest', heq, -⟩
      exact close_notMem hinner (heq ▸ List.mem_append_right inner' List.mem_cons_self)
    | port host port hhost hhead =>
      cases host with
      | nil => cases hopen
      | cons c host => exact (hhead host (by rw [Option.some.inj hopen])).elim
    | plain host hhost hhead =>
      cases authority with
      | nil => cases hopen
      | cons c rest => exact (hhead rest (by rw [Option.some.inj hopen])).elim
  unbracketed hopen := by
    cases h with
    | bracketPort inner port hinner => exact (hopen rfl).elim
    | bracket inner rest hinner hrest => exact (hopen rfl).elim
    | unclosed inner hinner => exact (hopen rfl).elim
    | port host port hhost hhead =>
      exact ⟨iff_of_true rfl (List.mem_append_right host List.mem_cons_self), fun _ => hhost⟩
    | plain host hhost hhead => exact ⟨iff_of_false (by simp) hhost, fun hsome => by cases hsome⟩

/-- The code divides every authority without a panic and without a loss. -/
theorem splitAuthority_lossless (authority : Str) :
    ∃ host port, splitAuthority authority = .ok (host, port) ∧ LosslessSplit authority host port := by
  obtain ⟨host, port, hsplit⟩ := exists_authoritySplit authority
  exact ⟨host, port, hsplit.splitAuthority_eq, hsplit.lossless⟩

/-- What normalization writes after the host. -/
def portSuffix (scheme : Str) : Option Str → Str
  | some port => if port ≠ [] ∧ isDefaultPort scheme port = false then ':' :: port else []
  | none => []

/-- Without a scheme the text is only folded. -/
theorem normalizeOrigin_of_no_scheme {origin : Str}
    (h : splitOnce schemeSeparator (trim origin) = none) :
    normalizeOrigin origin = .ok (toAsciiLowercase (trim origin)) := by
  rw [normalizeOrigin, h]
  rfl

/-- With a scheme the result is the folded scheme and host and the significant port. -/
theorem normalizeOrigin_of_scheme {origin scheme authority host : Str} {port : Option Str}
    (h : splitOnce schemeSeparator (trim origin) = some (scheme, authority))
    (hsplit : AuthoritySplit authority host port) :
    normalizeOrigin origin = .ok (toAsciiLowercase scheme ++ schemeSeparator ++
      (toAsciiLowercase host ++ portSuffix (toAsciiLowercase scheme) port)) := by
  rw [normalizeOrigin, h]
  simp only [hsplit.splitAuthority_eq, bind, Except.bind]
  cases port with
  | none => simp [portSuffix, pure, Except.pure]
  | some port =>
    by_cases hp : port ≠ [] ∧ isDefaultPort (toAsciiLowercase scheme) port = false
    · simp [portSuffix, hp, pure, Except.pure]
    · simp only [if_neg hp, portSuffix, pure, Except.pure, List.append_nil]

/-- Normalization never panics. -/
theorem exists_normalizeOrigin (origin : Str) : ∃ normalized, normalizeOrigin origin = .ok normalized := by
  cases h : splitOnce schemeSeparator (trim origin) with
  | none => exact ⟨_, normalizeOrigin_of_no_scheme h⟩
  | some parts =>
    obtain ⟨host, port, hsplit⟩ := exists_authoritySplit parts.2
    exact ⟨_, normalizeOrigin_of_scheme h hsplit⟩

/-- A normal text is a folded text without a scheme, or a folded scheme, a folded host and the
significant port. -/
theorem normalizeOrigin_cases {origin normal : Str} (h : normalizeOrigin origin = .ok normal) :
    (splitOnce schemeSeparator (trim origin) = none ∧ normal = toAsciiLowercase (trim origin)) ∨
    ∃ scheme authority host port,
      splitOnce schemeSeparator (trim origin) = some (scheme, authority) ∧
      AuthoritySplit authority host port ∧
      normal = toAsciiLowercase scheme ++ schemeSeparator ++
        (toAsciiLowercase host ++ portSuffix (toAsciiLowercase scheme) port) := by
  cases hcut : splitOnce schemeSeparator (trim origin) with
  | none =>
    rw [normalizeOrigin_of_no_scheme hcut] at h
    exact .inl ⟨rfl, (Except.ok.inj h).symm⟩
  | some parts =>
    obtain ⟨host, port, hsplit⟩ := exists_authoritySplit parts.2
    rw [normalizeOrigin_of_scheme hcut hsplit] at h
    exact .inr ⟨parts.1, parts.2, host, port, rfl, hsplit, (Except.ok.inj h).symm⟩

/-- The scan over the allow-list finds an entry exactly when one normalizes to the text. -/
theorem anyNormalizesTo_eq_true_iff {normalized : Str} {entries : List Str} :
    anyNormalizesTo normalized entries = .ok true ↔
      ∃ entry ∈ entries, normalizeOrigin entry = .ok normalized := by
  induction entries with
  | nil => simp [anyNormalizesTo, pure, Except.pure]
  | cons entry rest ih =>
    obtain ⟨text, htext⟩ := exists_normalizeOrigin entry
    by_cases heq : text = normalized
    · simp [anyNormalizesTo, htext, heq, bind, Except.bind, pure, Except.pure]
    · simp [anyNormalizesTo, htext, heq, bind, Except.bind, ih]

/-- The decision never panics. -/
theorem exists_originAllowed (origin : Option Str) (entries : List Str) :
    ∃ allowed, originAllowed origin entries = .ok allowed := by
  have hscan (normalized : Str) : ∃ found, anyNormalizesTo normalized entries = .ok found := by
    induction entries with
    | nil => exact ⟨false, rfl⟩
    | cons entry rest ih =>
      obtain ⟨text, htext⟩ := exists_normalizeOrigin entry
      by_cases heq : text = normalized
      · exact ⟨true, by simp [anyNormalizesTo, htext, heq, bind, Except.bind, pure, Except.pure]⟩
      · simpa [anyNormalizesTo, htext, heq, bind, Except.bind] using ih
  by_cases hnil : entries = []
  · exact ⟨true, by simp only [originAllowed, if_pos hnil, pure, Except.pure]⟩
  · simp only [originAllowed, if_neg hnil]
    cases origin with
    | none => exact ⟨false, rfl⟩
    | some origin =>
      obtain ⟨text, htext⟩ := exists_normalizeOrigin origin
      simpa only [htext, bind, Except.bind] using hscan text

/-- A non-empty list accepts an origin exactly when some entry normalizes as it does. -/
theorem originAllowed_eq_true_iff (origin : Str) {entries : List Str} (hne : entries ≠ []) :
    originAllowed (some origin) entries = .ok true ↔
      ∃ entry ∈ entries, normalizeOrigin entry = normalizeOrigin origin := by
  obtain ⟨text, htext⟩ := exists_normalizeOrigin origin
  simp only [originAllowed, if_neg hne, htext, bind, Except.bind, anyNormalizesTo_eq_true_iff]

end WsKit
