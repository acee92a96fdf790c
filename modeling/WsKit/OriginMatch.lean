import WsKit.Origin

/-!
# Exactness of the origin allow-list

An allow-list entry is a scheme, a host and an optional port. The decision accepts exactly
the origins that spell an entry's scheme and host up to ASCII case and its effective port.
Two divisions of an authority normalize to one text only where they mean one host and one
port: the bracket or the first colon separates the host in both, and the suffix left over
decides the port.
-/

namespace WsKit

open Base

/-- The port a folded scheme implies, as a number. -/
def defaultPort (scheme : Str) : Option ℕ :=
  if scheme = ['h', 't', 't', 'p'] ∨ scheme = ['w', 's'] then some 80
  else if scheme = ['h', 't', 't', 'p', 's'] ∨ scheme = ['w', 's', 's'] then some 443
  else none

/-- A host: one bracketed literal, or text free of separators and white space. -/
def WellFormedHost (host : Str) : Prop :=
  (∃ inner, host = '[' :: inner ++ [']'] ∧ ']' ∉ inner) ∨
    (host ≠ [] ∧ ∀ c ∈ host, c ∉ [':', '/', '[', ']', '@'] ∧ isWhitespace c = false)

/-- A well formed allow-list entry. -/
structure OriginEntry where
  scheme : Str
  host : Str
  port : Option ℕ
  scheme_ne_nil : scheme ≠ []
  scheme_chars : ∀ c ∈ scheme, c.isAlphanum = true ∨ c ∈ ['+', '.', '-']
  host_wellFormed : WellFormedHost host
  port_le : ∀ p ∈ port, p ≤ 65535

namespace OriginEntry

/-- The text of an entry as it stands in the list. -/
def text (entry : OriginEntry) : Str :=
  entry.scheme ++ schemeSeparator ++ entry.host ++
    match entry.port with
    | some p => ':' :: decimal p
    | none => []

/-- The default port of the entry's scheme. -/
def default (entry : OriginEntry) : Option ℕ := defaultPort (toAsciiLowercase entry.scheme)

/-- The text after the host names the entry's effective port. -/
def PortMatches (entry : OriginEntry) (tail : Str) : Prop :=
  (∃ p, entry.port = some p ∧ entry.default ≠ some p ∧ tail = ':' :: decimal p) ∨
    ((entry.port = none ∨ entry.port = entry.default) ∧
      (tail = [] ∨ tail = [':'] ∨
        ∃ q d, tail = ':' :: q ∧ entry.default = some d ∧ parseU16 q = some d))

/-- The origin is the entry up to ASCII case of scheme and host and spelling of the port. -/
def Accepts (entry : OriginEntry) (origin : Str) : Prop :=
  ∃ scheme host tail, trim origin = scheme ++ schemeSeparator ++ host ++ tail ∧
    toAsciiLowercase scheme = toAsciiLowercase entry.scheme ∧
    toAsciiLowercase host = toAsciiLowercase entry.host ∧ entry.PortMatches tail

/-- The port text that normalization keeps of an entry. -/
def suffix (entry : OriginEntry) : Str :=
  match entry.port with
  | some p => if entry.default = some p then [] else ':' :: decimal p
  | none => []

end OriginEntry

/-- The code's test reads a port text as the default port of the scheme. -/
theorem isDefaultPort_eq_true_iff {scheme port : Str} :
    isDefaultPort scheme port = true ↔ ∃ d, defaultPort scheme = some d ∧ parseU16 port = some d := by
  cases hp : parseU16 port with
  | none => simp [isDefaultPort, hp]
  | some p =>
    simp only [isDefaultPort, hp, defaultPort, Bool.or_eq_true, Bool.and_eq_true, beq_iff_eq,
      Option.some.injEq]
    by_cases h80 : scheme = ['h', 't', 't', 'p'] ∨ scheme = ['w', 's']
    · rcases h80 with rfl | rfl <;> simpa using eq_comm
    · rw [not_or] at h80
      by_cases h443 : scheme = ['h', 't', 't', 'p', 's'] ∨ scheme = ['w', 's', 's']
      · rcases h443 with rfl | rfl <;> simpa using eq_comm
      · rw [not_or] at h443
        simp [h80, h443]

theorem separator_caseless : ∀ c ∈ schemeSeparator, Caseless c := by
  simp [schemeSeparator, Caseless]

theorem colon_caseless : Caseless ':' := by simp [Caseless]

theorem open_caseless : Caseless '[' := by simp [Caseless]

theorem close_caseless : Caseless ']' := by simp [Caseless]

/-- Normalization writes nothing or a colon part after the host. -/
theorem portSuffix_shape (scheme : Str) (port : Option Str) :
    portSuffix scheme port = [] ∨ ∃ q, portSuffix scheme port = ':' :: q := by
  cases port with
  | none => exact Or.inl rfl
  | some port =>
    rw [portSuffix]
    split
    · exact Or.inr ⟨port, rfl⟩
    · exact Or.inl rfl

theorem OriginEntry.suffix_shape (entry : OriginEntry) :
    entry.suffix = [] ∨ ∃ q, entry.suffix = ':' :: q := by
  rw [OriginEntry.suffix]
  split
  · rename_i p hp
    split
    · exact Or.inl rfl
    · exact Or.inr ⟨decimal p, rfl⟩
  · exact Or.inl rfl

/-- The text of an optional port as it stands in an origin. -/
def portText : Option Str → Str
  | some port => ':' :: port
  | none => []

/-- Normalization drops a port that is absent, empty or the default. -/
theorem portSuffix_eq_nil_iff {scheme : Str} {port : Option Str} :
    portSuffix scheme port = [] ↔ ∀ q, port = some q → q = [] ∨ isDefaultPort scheme q = true := by
  cases port with
  | none => simp [portSuffix]
  | some q =>
    rw [portSuffix]
    split
    · next hkeep => simp [hkeep.1, hkeep.2]
    · next hdrop =>
      rw [not_and_or, not_not, Bool.not_eq_false] at hdrop
      simpa using hdrop

/-- Any other port is kept as it is written. -/
theorem portSuffix_eq_cons_iff {scheme q : Str} {port : Option Str} :
    portSuffix scheme port = ':' :: q ↔
      port = some q ∧ q ≠ [] ∧ isDefaultPort scheme q = false := by
  cases port with
  | none => simp [portSuffix]
  | some r =>
    rw [portSuffix]
    split
    · next hkeep =>
      simp only [List.cons.injEq, true_and, Option.some.injEq]
      exact ⟨fun heq => ⟨heq, heq ▸ hkeep⟩, fun h => h.1⟩
    · next hdrop =>
      refine iff_of_false (fun h => by cases h) ?_
      rintro ⟨heq, hkeep⟩
      exact hdrop (Option.some.inj heq ▸ hkeep)

namespace OriginEntry

/-- An entry names a port of its own, or leaves the default one. -/
theorem port_cases (entry : OriginEntry) :
    (∃ p, entry.port = some p ∧ entry.default ≠ some p) ∨
      (entry.port = none ∨ entry.port = entry.default) := by
  cases hp : entry.port with
  | none => exact Or.inr (Or.inl rfl)
  | some p =>
    by_cases hd : entry.default = some p
    · exact Or.inr (Or.inr hd.symm)
    · exact Or.inl ⟨p, rfl, hd⟩

theorem suffix_of_ne_default {entry : OriginEntry} {p : ℕ} (hp : entry.port = some p)
    (hd : entry.default ≠ some p) : entry.suffix = ':' :: decimal p := by
  simp only [suffix, hp, if_neg hd]

theorem suffix_of_default {entry : OriginEntry}
    (h : entry.port = none ∨ entry.port = entry.default) : entry.suffix = [] := by
  rw [suffix]
  split
  · next p hp =>
    rw [hp] at h
    rw [if_pos (by simpa [eq_comm] using h)]
  · rfl

/-- A port number that differs from the default is not read as the default. -/
theorem isDefaultPort_decimal {entry : OriginEntry} {p : ℕ} (hp : entry.port = some p)
    (hd : entry.default ≠ some p) :
    isDefaultPort (toAsciiLowercase entry.scheme) (decimal p) = false := by
  rw [Bool.eq_false_iff]
  intro htrue
  obtain ⟨d, hd', hparse⟩ := isDefaultPort_eq_true_iff.mp htrue
  rw [parseU16_decimal (entry.port_le p hp)] at hparse
  exact hd (hd'.trans hparse.symm)

end OriginEntry

/-- The significant ports agree exactly when the origin's port text matches the entry. -/
theorem portSuffix_eq_suffix_iff (entry : OriginEntry) (port : Option Str) :
    portSuffix (toAsciiLowercase entry.scheme) port = entry.suffix ↔
      entry.PortMatches (portText port) := by
  rcases entry.port_cases with ⟨p, hp, hd⟩ | habsent
  · -- the entry keeps its port, so the origin's port is that number
    rw [OriginEntry.suffix_of_ne_default hp hd, portSuffix_eq_cons_iff]
    constructor
    · rintro ⟨rfl, -, -⟩
      exact Or.inl ⟨p, hp, hd, rfl⟩
    · rintro (⟨p', hp', -, htail⟩ | ⟨hnone | hdefault, -⟩)
      · obtain rfl : p = p' := Option.some.inj (hp.symm.trans hp')
        refine ⟨?_, decimal_ne_nil p, OriginEntry.isDefaultPort_decimal hp hd⟩
        cases port with
        | none => cases htail
        | some q => rw [(List.cons.inj htail).2]
      · rw [hp] at hnone
        cases hnone
      · exact (hd (hdefault.symm.trans hp)).elim
  · -- the entry keeps no port, so the origin's port is absent, empty or the default
    rw [OriginEntry.suffix_of_default habsent, portSuffix_eq_nil_iff]
    constructor
    · intro hdrop
      refine Or.inr ⟨habsent, ?_⟩
      cases port with
      | none => exact Or.inl rfl
      | some q =>
        rcases hdrop q rfl with rfl | hq
        · exact Or.inr (Or.inl rfl)
        · obtain ⟨d, hd, hparse⟩ := isDefaultPort_eq_true_iff.mp hq
          exact Or.inr (Or.inr ⟨q, d, rfl, hd, hparse⟩)
    · rintro (⟨p, hp, hd, -⟩ | ⟨-, htail⟩) q rfl
      · rw [hp] at habsent
        exact (hd (habsent.resolve_left (by simp)).symm).elim
      · rcases htail with htail | htail | ⟨r, d, htail, hd, hparse⟩
        · cases htail
        · exact Or.inl (List.cons.inj htail).2
        · obtain rfl : q = r := (List.cons.inj htail).2
          exact Or.inr (isDefaultPort_eq_true_iff.mpr ⟨d, hd, hparse⟩)

/-- What splitting an authority sees of a host. -/
def HostShape (host : Str) : Prop :=
  (∃ inner, host = '[' :: inner ++ [']'] ∧ ']' ∉ inner) ∨
    (host ≠ [] ∧ ':' ∉ host ∧ ∀ rest, host ≠ '[' :: rest)

theorem WellFormedHost.shape {host : Str} (h : WellFormedHost host) : HostShape host := by
  rcases h with hbracket | ⟨hne, hchars⟩
  · exact Or.inl hbracket
  · refine Or.inr ⟨hne, fun hmem => (hchars ':' hmem).1 (by simp), ?_⟩
    rintro rest rfl
    exact (hchars '[' List.mem_cons_self).1 (by simp)

/-- Folding keeps the shape of a host, so a spelling in other case has it too. -/
theorem HostShape.of_fold_eq {host spelled : Str} (h : HostShape host)
    (heq : toAsciiLowercase spelled = toAsciiLowercase host) : HostShape spelled := by
  rcases h with ⟨inner, rfl, hinner⟩ | ⟨hne, hcolon, hhead⟩
  · left
    simp only [List.cons_append, toAsciiLowercase_cons, toAsciiLowercase_append,
      toAsciiLowercase_nil, toLower_of_caseless open_caseless,
      toLower_of_caseless close_caseless] at heq
    obtain ⟨rest, rfl, hrest⟩ := (toAsciiLowercase_eq_cons_iff open_caseless).mp heq
    obtain ⟨left, right, rfl, hleft, hright⟩ := List.map_eq_append_iff.mp hrest
    obtain ⟨tail, rfl, htail⟩ := (toAsciiLowercase_eq_cons_iff close_caseless).mp hright
    obtain rfl := toAsciiLowercase_eq_nil_iff.mp htail
    refine ⟨left, rfl, fun hmem => hinner ?_⟩
    rw [← mem_toAsciiLowercase close_caseless] at hmem ⊢
    exact hleft ▸ hmem
  · right
    refine ⟨?_, ?_, ?_⟩
    · rintro rfl
      exact hne (toAsciiLowercase_eq_nil_iff.mp heq.symm)
    · rw [← mem_toAsciiLowercase colon_caseless, heq, mem_toAsciiLowercase colon_caseless]
      exact hcolon
    · rintro rest rfl
      rw [toAsciiLowercase_cons, toLower_of_caseless open_caseless, eq_comm] at heq
      obtain ⟨tail, rfl, -⟩ := (toAsciiLowercase_eq_cons_iff open_caseless).mp heq
      exact hhead tail rfl

/-- A host is a whole host of an authority, alone or before a port text. -/
theorem HostShape.authoritySplit {host : Str} (h : HostShape host) (port : Option Str) :
    AuthoritySplit (host ++ portText port) host port := by
  rcases h with ⟨inner, rfl, hinner⟩ | ⟨-, hcolon, hhead⟩
  · cases port with
    | some port => simpa [portText] using AuthoritySplit.bracketPort inner port hinner
    | none => simpa [portText] using AuthoritySplit.bracket inner [] hinner (by simp)
  · cases port with
    | some port => exact .port host port hcolon hhead
    | none => simpa [portText] using AuthoritySplit.plain host hcolon hhead

namespace AuthoritySplit

/-- Folding an authority folds its parts. -/
theorem fold {authority host : Str} {port : Option Str} (h : AuthoritySplit authority host port) :
    AuthoritySplit (toAsciiLowercase authority) (toAsciiLowercase host)
      (port.map toAsciiLowercase) := by
  have hclose {inner : Str} (hinner : ']' ∉ inner) : ']' ∉ toAsciiLowercase inner := by
    rwa [mem_toAsciiLowercase close_caseless]
  have hcolon {host : Str} (hhost : ':' ∉ host) : ':' ∉ toAsciiLowercase host := by
    rwa [mem_toAsciiLowercase colon_caseless]
  have hopen {host : Str} (hhead : ∀ rest, host ≠ '[' :: rest) (rest : Str) :
      toAsciiLowercase host ≠ '[' :: rest := by
    intro heq
    obtain ⟨tail, htail, -⟩ := (toAsciiLowercase_eq_cons_iff open_caseless).1 heq
    exact hhead tail htail
  cases h with
  | bracketPort inner port hinner =>
    simpa [toLower_of_caseless open_caseless, toLower_of_caseless close_caseless,
      toLower_of_caseless colon_caseless] using bracketPort _ (toAsciiLowercase port) (hclose hinner)
  | bracket inner rest hinner hrest =>
    have hfold : ∀ port, toAsciiLowercase rest ≠ ':' :: port := by
      intro port heq
      obtain ⟨tail, htail, -⟩ := (toAsciiLowercase_eq_cons_iff colon_caseless).1 heq
      exact hrest tail htail
    simpa [toLower_of_caseless open_caseless, toLower_of_caseless close_caseless] using
      bracket _ _ (hclose hinner) hfold
  | unclosed inner hinner =>
    simpa [toLower_of_caseless open_caseless] using unclosed _ (hclose hinner)
  | port host port hhost hhead =>
    simpa [toLower_of_caseless colon_caseless] using
      AuthoritySplit.port _ (toAsciiLowercase port) (hcolon hhost) (hopen hhead)
  | plain _ hhost hhead => exact plain _ (hcolon hhost) (hopen hhead)

/-- A host stands for itself. -/
theorem alone {authority host : Str} {port : Option Str} (h : AuthoritySplit authority host port) :
    AuthoritySplit host host none := by
  cases h with
  | bracketPort inner port hinner => exact bracket inner [] hinner (by simp)
  | bracket inner rest hinner hrest => exact bracket inner rest hinner hrest
  | unclosed inner hinner => exact unclosed inner hinner
  | port host port hhost hhead => exact plain _ hhost hhead
  | plain _ hhost hhead => exact plain _ hhost hhead

/-- Where a port stood, any other may stand. -/
theorem replace_port {authority host port : Str} (h : AuthoritySplit authority host (some port))
    (port' : Str) : AuthoritySplit (host ++ ':' :: port') host (some port') := by
  cases h with
  | bracketPort inner port hinner => simpa using bracketPort inner port' hinner
  | port host port hhost hhead => exact .port _ _ hhost hhead

/-- The authority is the host and the text of the port. -/
theorem eq_append_portText {authority host : Str} {port : Option Str}
    (h : AuthoritySplit authority host port) : authority = host ++ portText port := by
  cases port with
  | none => rw [portText, List.append_nil, h.host_eq]
  | some port => exact h.eq_append

/-- What normalization writes behind the scheme is divided into the folded host and the port that
it keeps. -/
theorem folded {authority host : Str} {port : Option Str} (h : AuthoritySplit authority host port)
    (scheme : Str) : ∃ kept, portSuffix scheme port = portText kept ∧
      AuthoritySplit (toAsciiLowercase host ++ portText kept) (toAsciiLowercase host) kept := by
  rcases portSuffix_shape scheme port with hnil | ⟨q, hcons⟩
  · exact ⟨none, hnil, by simpa [portText] using h.fold.alone⟩
  · obtain ⟨rfl, -, -⟩ := portSuffix_eq_cons_iff.1 hcons
    exact ⟨some q, hcons, h.fold.replace_port q⟩

/-- An authority normalizes as the entry's does only if it spells the entry's host and port. -/
theorem matches_entry {authority host : Str} {port : Option Str}
    (hsplit : AuthoritySplit authority host port) (entry : OriginEntry)
    (h : toAsciiLowercase host ++ portSuffix (toAsciiLowercase entry.scheme) port =
      toAsciiLowercase entry.host ++ entry.suffix) :
    ∃ spelled tail, authority = spelled ++ tail ∧
      toAsciiLowercase spelled = toAsciiLowercase entry.host ∧ entry.PortMatches tail := by
  obtain ⟨kept, hkept, hnormal⟩ := hsplit.folded (toAsciiLowercase entry.scheme)
  obtain ⟨kept', hkept'⟩ : ∃ kept', entry.suffix = portText kept' := by
    rcases entry.suffix_shape with hnil | ⟨q, hcons⟩
    · exact ⟨none, hnil⟩
    · exact ⟨some q, hcons⟩
  -- the two normal texts are one text, and it is divided in one way
  have hentry := (entry.host_wellFormed.shape.of_fold_eq
    (toAsciiLowercase_idempotent entry.host)).authoritySplit kept'
  rw [hkept, hkept'] at h
  rw [← h] at hentry
  obtain ⟨hhost, rfl⟩ := hnormal.unique hentry
  exact ⟨host, portText port, hsplit.eq_append_portText, hhost,
    (portSuffix_eq_suffix_iff entry port).mp (hkept.trans hkept'.symm)⟩

end AuthoritySplit

/-- A spelling of a scheme, however cased, has no colon. -/
private theorem colon_notMem_scheme {entry : OriginEntry} {scheme : Str}
    (h : toAsciiLowercase scheme = toAsciiLowercase entry.scheme) : ':' ∉ scheme := by
  rw [← mem_toAsciiLowercase colon_caseless, h, mem_toAsciiLowercase colon_caseless]
  intro hmem
  rcases entry.scheme_chars ':' hmem with halnum | hsymbol
  · exact absurd halnum (by decide)
  · exact absurd hsymbol (by decide)

/-- Characters allowed in a scheme are printable. -/
private theorem scheme_char_graphic {c : Char} (h : c.isAlphanum = true ∨ c ∈ ['+', '.', '-']) :
    33 ≤ c.toNat ∧ c.toNat ≤ 126 := by
  rcases h with h | h
  · simp only [Char.isAlphanum, Char.isAlpha, Char.isUpper, Char.isLower, Char.isDigit,
      Bool.or_eq_true, Bool.and_eq_true, decide_eq_true_eq, ge_iff_le, UInt32.le_iff_toNat_le] at h
    simp at h
    omega
  · simp only [List.mem_cons, List.not_mem_nil, or_false] at h
    rcases h with rfl | rfl | rfl <;> decide

/-- A well formed host ends outside white space. -/
private theorem WellFormedHost.getLast_graphic {host : Str} (h : WellFormedHost host) :
    ∀ c ∈ host.getLast?, isWhitespace c = false := by
  intro c hc
  rcases h with ⟨inner, rfl, -⟩ | ⟨-, hchars⟩
  · rw [List.getLast?_concat, Option.mem_some_iff] at hc
    subst hc
    decide
  · exact (hchars c (List.mem_of_getLast? hc)).2

/-- An entry is not trimmed. -/
theorem OriginEntry.trim_text (entry : OriginEntry) : trim entry.text = entry.text := by
  have hhost := entry.host_wellFormed.getLast_graphic
  apply trim_eq_self
  · intro c hc
    obtain ⟨d, rest, hscheme⟩ := List.exists_cons_of_ne_nil entry.scheme_ne_nil
    have hdc : d = c := by simpa [OriginEntry.text, hscheme] using hc
    exact isWhitespace_of_graphic
      (scheme_char_graphic (entry.scheme_chars c (by rw [hscheme, hdc]; exact List.mem_cons_self)))
  · intro c hc
    rw [OriginEntry.text, List.getLast?_append] at hc
    cases hp : entry.port with
    | none =>
      simp only [hp, List.getLast?_nil, Option.none_or, List.getLast?_append] at hc
      obtain ⟨d, hd⟩ : ∃ d, entry.host.getLast? = some d := by
        rw [← Option.isSome_iff_exists, List.getLast?_isSome]
        rcases entry.host_wellFormed with ⟨inner, h, -⟩ | ⟨h, -⟩
        · rw [h]
          simp
        · exact h
      rw [hd, Option.some_or, Option.mem_some_iff] at hc
      exact hhost c (hc ▸ hd)
    | some p =>
      obtain ⟨d, hd⟩ : ∃ d, (decimal p).getLast? = some d := by
        rw [← Option.isSome_iff_exists, List.getLast?_isSome]
        exact decimal_ne_nil p
      simp only [hp, List.getLast?_cons, hd, Option.getD_some, Option.some_or,
        Option.mem_some_iff] at hc
      have hdigit := isDigit_of_mem_decimal (List.mem_of_getLast? hd)
      rw [Char.isDigit_iff_toNat, hc] at hdigit
      exact isWhitespace_of_graphic ⟨le_trans (by decide) hdigit.1, le_trans hdigit.2 (by decide)⟩

/-- An origin with an entry's scheme, host and port normalizes to the entry's own text. -/
theorem normalizeOrigin_of_accepts {entry : OriginEntry} {origin : Str} (h : entry.Accepts origin) :
    normalizeOrigin origin = .ok (toAsciiLowercase entry.scheme ++ schemeSeparator ++
      (toAsciiLowercase entry.host ++ entry.suffix)) := by
  obtain ⟨scheme, host, tail, htrim, hscheme, hhost, hport⟩ := h
  obtain ⟨port, rfl⟩ : ∃ port, tail = portText port := by
    rcases hport with ⟨p, -, -, rfl⟩ | ⟨-, rfl | rfl | ⟨q, d, rfl, -⟩⟩
    · exact ⟨some (decimal p), rfl⟩
    · exact ⟨none, rfl⟩
    · exact ⟨some [], rfl⟩
    · exact ⟨some q, rfl⟩
  have hcut : splitOnce schemeSeparator (trim origin) = some (scheme, host ++ portText port) := by
    rw [htrim, List.append_assoc]
    exact splitOnce_of_notMem _ _ (colon_notMem_scheme hscheme)
  have hsplit := (entry.host_wellFormed.shape.of_fold_eq hhost).authoritySplit port
  rw [normalizeOrigin_of_scheme hcut hsplit, hscheme, hhost,
    (portSuffix_eq_suffix_iff entry port).mpr hport]

/-- Every entry accepts its own text. -/
theorem OriginEntry.accepts_text (entry : OriginEntry) : entry.Accepts entry.text := by
  refine ⟨entry.scheme, entry.host, _, entry.trim_text, rfl, rfl, ?_⟩
  cases hp : entry.port with
  | none => exact Or.inr ⟨Or.inl hp, Or.inl rfl⟩
  | some p =>
    by_cases hd : entry.default = some p
    · exact Or.inr ⟨Or.inr (hp.trans hd.symm), Or.inr (Or.inr ⟨decimal p, p, rfl, hd,
        parseU16_decimal (entry.port_le p hp)⟩)⟩
    · exact Or.inl ⟨p, hp, hd, rfl⟩

/-- The folded scheme ends at the first separator, whatever follows it. -/
theorem splitOnce_folded {origin scheme authority : Str}
    (h : splitOnce schemeSeparator (trim origin) = some (scheme, authority)) (tail : Str) :
    splitOnce schemeSeparator (toAsciiLowercase scheme ++ schemeSeparator ++ tail) =
      some (toAsciiLowercase scheme, tail) := by
  have hfold := splitOnce_toAsciiLowercase separator_caseless (trim origin)
  rw [h, Option.map_some, splitOnce_eq_append h, toAsciiLowercase_append, toAsciiLowercase_append,
    toAsciiLowercase_of_caseless separator_caseless] at hfold
  exact splitOnce_append_congr hfold tail

/-- An origin that normalizes to an entry's text is accepted by the entry. -/
theorem accepts_of_normalizeOrigin {entry : OriginEntry} {origin : Str}
    (h : normalizeOrigin origin = .ok (toAsciiLowercase entry.scheme ++ schemeSeparator ++
      (toAsciiLowercase entry.host ++ entry.suffix))) : entry.Accepts origin := by
  have hentry : splitOnce schemeSeparator (toAsciiLowercase entry.scheme ++ schemeSeparator ++
      (toAsciiLowercase entry.host ++ entry.suffix)) =
        some (toAsciiLowercase entry.scheme, toAsciiLowercase entry.host ++ entry.suffix) := by
    refine splitOnce_of_notMem _ _ ?_
    rw [mem_toAsciiLowercase colon_caseless]
    exact colon_notMem_scheme rfl
  obtain ⟨hcut, hfold⟩ | ⟨scheme, authority, host, port, hcut, hsplit, hnormal⟩ :=
    normalizeOrigin_cases h
  · -- a text without the separator folds to one without it
    have hnone := splitOnce_toAsciiLowercase separator_caseless (trim origin)
    rw [hcut, ← hfold, hentry] at hnone
    cases hnone
  · have horigin := splitOnce_eq_append hcut
    have hnorm := splitOnce_folded hcut
      (toAsciiLowercase host ++ portSuffix (toAsciiLowercase scheme) port)
    rw [← hnormal, hentry, Option.some.injEq, Prod.mk.injEq] at hnorm
    obtain ⟨hscheme, hrest⟩ := hnorm
    rw [← hscheme] at hrest
    obtain ⟨spelled, tail, rfl, hhost, hport⟩ := hsplit.matches_entry entry hrest.symm
    exact ⟨scheme, spelled, tail, by rw [horigin, List.append_assoc, List.append_assoc,
      List.append_assoc], hscheme.symm, hhost, hport⟩

/-- The allow-list decision is exact: an origin is accepted precisely when it spells the scheme
and host of some entry up to ASCII case, with that entry's effective port; no origin is refused. -/
theorem originAllowed_exact (entries : List OriginEntry) (hne : entries ≠ []) :
    (∀ origin, ∃ allowed, originAllowed (some origin) (entries.map OriginEntry.text) = .ok allowed ∧
      (allowed = true ↔ ∃ entry ∈ entries, entry.Accepts origin)) ∧
      originAllowed none (entries.map OriginEntry.text) = .ok false := by
  have hlist : entries.map OriginEntry.text ≠ [] := by rwa [Ne, List.map_eq_nil_iff]
  constructor
  · intro origin
    obtain ⟨allowed, hallowed⟩ := exists_originAllowed (some origin) (entries.map OriginEntry.text)
    refine ⟨allowed, hallowed, ?_⟩
    have hiff := originAllowed_eq_true_iff origin hlist
    rw [hallowed, Except.ok.injEq] at hiff
    rw [hiff]
    simp only [List.mem_map, exists_exists_and_eq_and]
    constructor
    · rintro ⟨entry, hmem, heq⟩
      rw [normalizeOrigin_of_accepts entry.accepts_text] at heq
      exact ⟨entry, hmem, accepts_of_normalizeOrigin heq.symm⟩
    · rintro ⟨entry, hmem, haccepts⟩
      exact ⟨entry, hmem, by rw [normalizeOrigin_of_accepts entry.accepts_text,
        normalizeOrigin_of_accepts haccepts]⟩
  · simp only [originAllowed, if_neg hlist, pure, Except.pure]

/-- An entry with a significant port. -/
def singletonEntry : OriginEntry where
  scheme := ['w', 's']
  host := ['a']
  port := some 81
  scheme_ne_nil := List.cons_ne_nil _ _
  scheme_chars := List.forall_mem_cons.2 ⟨by decide, List.forall_mem_singleton.2 (by decide)⟩
  host_wellFormed := .inr ⟨List.cons_ne_nil _ _, List.forall_mem_singleton.2 (by decide)⟩
  port_le _ h := by cases h; decide

/-- The decision for a list of one entry with a significant port. -/
theorem originAllowed_exact_singleton :
    ∃ entry : OriginEntry, entry.text = ['w', 's', ':', '/', '/', 'a', ':', '8', '1'] ∧
      (∀ origin, ∃ allowed, originAllowed (some origin) [entry.text] = .ok allowed ∧
        (allowed = true ↔ ∃ accepting ∈ [entry], accepting.Accepts origin)) ∧
      originAllowed none [entry.text] = .ok false :=
  ⟨singletonEntry, by decide, originAllowed_exact [_] (by simp)⟩

end WsKit
