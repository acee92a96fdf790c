import WsKit.OriginMatch

/-!
# Normalizing a normalized origin

White space is removed once, before the text is divided, and a port is dropped afterwards. So a
port that stands behind white space leaves it at the end of the result, and only a second pass
removes it. A normal text is therefore normalized to itself without the white space at its end,
and normalization is idempotent on all texts but these.
-/

namespace WsKit

open Base

/-- An empty or default port stands behind white space, so that dropping it uncovers the white
space: the host is not bracketed and ends in white space. -/
def UncoversSpace (origin : Str) : Prop :=
  ∃ scheme host port, splitOnce schemeSeparator (trim origin) = some (scheme, host ++ ':' :: port) ∧
    ':' ∉ host ∧ (∀ rest, host ≠ '[' :: rest) ∧
    (port = [] ∨ isDefaultPort (toAsciiLowercase scheme) port = true) ∧
    ∃ c ∈ host.getLast?, isWhitespace c = true

/-- A part at the front of a host stands for itself: no port is found in it. -/
theorem AuthoritySplit.alone_of_prefix {host part : Str} (h : AuthoritySplit host host none)
    (hpart : part <+: host) : AuthoritySplit part part none := by
  obtain ⟨front, port, hsplit⟩ := exists_authoritySplit part
  cases port with
  | none => rwa [hsplit.host_eq] at hsplit
  | some port =>
    obtain ⟨rest, rfl⟩ := hpart
    have hwhole := hsplit.replace_port (port ++ rest)
    rw [← List.cons_append, ← List.append_assoc, ← hsplit.eq_append] at hwhole
    cases (hwhole.unique h).2

section WithScheme

variable {origin scheme authority host : Str} {port : Option Str}

/-- An authority does not end in white space. -/
theorem authority_getLast (h : splitOnce schemeSeparator (trim origin) = some (scheme, authority)) :
    ∀ c ∈ authority.getLast?, isWhitespace c = false := by
  intro c hc
  apply (trimmed_trim origin).last
  rw [splitOnce_eq_append h, List.getLast?_append, hc]
  rfl

/-- A port that is kept ends the authority, so what stands behind the host does not end in white
space either. -/
theorem portSuffix_getLast (h : splitOnce schemeSeparator (trim origin) = some (scheme, authority))
    (hsplit : AuthoritySplit authority host port) {q : Str}
    (hkept : portSuffix (toAsciiLowercase scheme) port = ':' :: q) (front : Str) :
    ∀ c ∈ (front ++ ':' :: q).getLast?, isWhitespace c = false := by
  obtain ⟨rfl, -, -⟩ := portSuffix_eq_cons_iff.1 hkept
  intro c hc
  apply authority_getLast h
  rw [hsplit.eq_append]
  rwa [List.getLast?_append_cons] at hc ⊢

/-- A text behind a folded scheme is trimmed at its end alone. -/
theorem trim_folded (h : splitOnce schemeSeparator (trim origin) = some (scheme, authority))
    (tail : Str) :
    trim (toAsciiLowercase scheme ++ schemeSeparator ++ tail) =
      toAsciiLowercase scheme ++ schemeSeparator ++ tail.rdropWhile isWhitespace := by
  have hlast : (toAsciiLowercase scheme ++ schemeSeparator).getLast? = some '/' := by
    simp [schemeSeparator]
  refine trim_append (fun c hc => ?_) hlast (by decide) tail
  cases scheme with
  | nil =>
    obtain rfl : ':' = c := Option.some.inj hc
    decide
  | cons d scheme =>
    obtain rfl : d.toLower = c := Option.some.inj hc
    rw [isWhitespace_toLower]
    apply (trimmed_trim origin).head
    rw [splitOnce_eq_append h]
    rfl

/-- The authority of a normal text ends in white space exactly if a dropped port uncovers it. -/
theorem folded_getLast_iff (h : splitOnce schemeSeparator (trim origin) = some (scheme, authority))
    (hsplit : AuthoritySplit authority host port) :
    (∃ c ∈ (toAsciiLowercase host ++ portSuffix (toAsciiLowercase scheme) port).getLast?,
      isWhitespace c = true) ↔ UncoversSpace origin := by
  have hend := authority_getLast h
  constructor
  · rintro ⟨c, hc, hspace⟩
    rcases portSuffix_shape (toAsciiLowercase scheme) port with hnil | ⟨q, hcons⟩
    · -- nothing follows the host, so the host ends in white space
      rw [hnil, List.append_nil, toAsciiLowercase, List.getLast?_map, Option.mem_map] at hc
      obtain ⟨d, hd, rfl⟩ := hc
      rw [isWhitespace_toLower] at hspace
      cases hsplit with
      | bracketPort inner port hinner =>
        rw [List.getLast?_concat, Option.mem_some_iff] at hd
        subst hd
        cases hspace
      | bracket inner rest hinner hrest => simp [hend d hd] at hspace
      | unclosed inner hinner => simp [hend d hd] at hspace
      | port host port hhost hhead =>
        exact ⟨scheme, host, port, h, hhost, hhead, portSuffix_eq_nil_iff.1 hnil port rfl, d, hd, hspace⟩
      | plain _ hhost hhead => simp [hend d hd] at hspace
    · rw [hcons] at hc
      rw [portSuffix_getLast h hsplit hcons _ c hc] at hspace
      cases hspace
  · rintro ⟨scheme', host', port', hcut, hhost, hhead, hdrop, d, hd, hspace⟩
    obtain ⟨rfl, rfl⟩ := Prod.mk.inj (Option.some.inj (h.symm.trans hcut))
    obtain ⟨rfl, rfl⟩ := hsplit.unique (.port host' port' hhost hhead)
    have hnil : portSuffix (toAsciiLowercase scheme) (some port') = [] :=
      portSuffix_eq_nil_iff.2 fun q hq => Option.some.inj hq ▸ hdrop
    rw [hnil, List.append_nil, toAsciiLowercase, List.getLast?_map, Option.mem_def.1 hd]
    exact ⟨_, rfl, by rwa [isWhitespace_toLower]⟩

/-- What normalization writes behind the scheme, without white space at its end, is divided and
written in the same way again. -/
theorem exists_split_again (h : splitOnce schemeSeparator (trim origin) = some (scheme, authority))
    (hsplit : AuthoritySplit authority host port) :
    ∃ host' port', AuthoritySplit ((toAsciiLowercase host ++
        portSuffix (toAsciiLowercase scheme) port).rdropWhile isWhitespace) host' port' ∧
      toAsciiLowercase host' ++ portSuffix (toAsciiLowercase scheme) port' =
        (toAsciiLowercase host ++ portSuffix (toAsciiLowercase scheme) port).rdropWhile isWhitespace := by
  obtain ⟨kept, hkept, hnormal⟩ := hsplit.folded (toAsciiLowercase scheme)
  cases kept with
  | none =>
    -- the host alone, perhaps cut at its end
    rw [hkept, portText, List.append_nil]
    have hpart := List.rdropWhile_prefix isWhitespace (toAsciiLowercase host)
    refine ⟨_, none, hnormal.alone.alone_of_prefix hpart, ?_⟩
    obtain ⟨part, -, hpart'⟩ := List.prefix_map_iff.1 hpart
    rw [portSuffix, List.append_nil, hpart']
    exact toAsciiLowercase_idempotent part
  | some q =>
    -- the port is kept, and nothing is cut
    have hends := portSuffix_getLast h hsplit hkept (toAsciiLowercase host)
    obtain ⟨rfl, -, -⟩ := portSuffix_eq_cons_iff.1 hkept
    rw [hkept, portText, rdropWhile_eq_self_iff.2 hends]
    exact ⟨_, some q, hnormal, by rw [toAsciiLowercase_idempotent, hkept, portText]⟩

end WithScheme

/-- A normal text is normalized to itself without the white space at its ends. -/
theorem normalizeOrigin_normal {origin normal : Str} (h : normalizeOrigin origin = .ok normal) :
    normalizeOrigin normal = .ok (trim normal) := by
  obtain ⟨hcut, rfl⟩ | ⟨scheme, authority, host, port, hcut, hsplit, rfl⟩ := normalizeOrigin_cases h
  · have hnone : splitOnce schemeSeparator (trim (toAsciiLowercase (trim origin))) = none := by
      rw [trim_toAsciiLowercase_trim, splitOnce_toAsciiLowercase separator_caseless, hcut]
      rfl
    rw [normalizeOrigin_of_no_scheme hnone, trim_toAsciiLowercase_trim, toAsciiLowercase_idempotent]
  · obtain ⟨host', port', hagain, hsame⟩ := exists_split_again hcut hsplit
    have hcut' := splitOnce_folded hcut ((toAsciiLowercase host ++
      portSuffix (toAsciiLowercase scheme) port).rdropWhile isWhitespace)
    rw [← trim_folded hcut] at hcut'
    rw [normalizeOrigin_of_scheme hcut' hagain, toAsciiLowercase_idempotent, hsame, trim_folded hcut]

/-- A normal text stands without white space at its ends exactly if none was uncovered. -/
theorem trim_normal_eq_self_iff {origin normal : Str} (h : normalizeOrigin origin = .ok normal) :
    trim normal = normal ↔ ¬ UncoversSpace origin := by
  obtain ⟨hcut, rfl⟩ | ⟨scheme, authority, host, port, hcut, hsplit, rfl⟩ := normalizeOrigin_cases h
  · refine iff_of_true (trim_toAsciiLowercase_trim origin) ?_
    rintro ⟨scheme, host, port, hsome, -⟩
    rw [hcut] at hsome
    cases hsome
  · rw [trim_folded hcut, List.append_cancel_left_eq, rdropWhile_eq_self_iff,
      ← folded_getLast_iff hcut hsplit]
    simp

/-- Entries that normalize to the same texts decide alike. -/
theorem originAllowed_congr (origin : Option Str) {entries entries' : List Str}
    (h : List.Forall₂ (fun entry entry' => normalizeOrigin entry' = normalizeOrigin entry)
      entries entries') :
    originAllowed origin entries' = originAllowed origin entries := by
  have hscan (normal : Str) : anyNormalizesTo normal entries' = anyNormalizesTo normal entries := by
    induction h with
    | nil => rfl
    | cons hentry _ ih => simp only [anyNormalizesTo, hentry, ih]
  have hnil : entries' = [] ↔ entries = [] := by
    cases h <;> simp
  simp only [originAllowed, hnil, hscan]

/-- A list in normal form refuses the origins in which a dropped port uncovers white space. -/
theorem originAllowed_normal_ne_true {entries normals : List Str} {origin : Str}
    (h : List.Forall₂ (fun entry normal => normalizeOrigin entry = .ok normal) entries normals)
    (hne : entries ≠ []) (huncovers : UncoversSpace origin) :
    originAllowed (some origin) normals ≠ .ok true := by
  have hagain : ∀ normal ∈ normals, normalizeOrigin normal = .ok (trim normal) :=
    ((List.forall₂_and_left _ _).1 (h.flip.imp fun normal entry hnormal =>
      ⟨normalizeOrigin_normal hnormal, hnormal⟩)).1
  have hne' : normals ≠ [] := by
    rintro rfl
    exact hne (List.forall₂_nil_right_iff.1 h)
  rw [Ne, originAllowed_eq_true_iff origin hne']
  rintro ⟨normal, hmem, heq⟩
  -- the entry's second form is trimmed, the origin's first form is not
  rw [hagain normal hmem] at heq
  exact (trim_normal_eq_self_iff heq.symm).1 (trim_eq_self_iff.2 (trimmed_trim normal)) huncovers

/-- Normalizing twice is normalizing once exactly for the texts in which no dropped port uncovers
white space, and a list of entries decides as it does in normal form exactly if all entries are
such texts. -/
theorem normalizeOrigin_idempotent_iff (origin : Str) (entries : List Str) :
    ((do normalizeOrigin (← normalizeOrigin origin)) = normalizeOrigin origin ↔
      ¬ UncoversSpace origin) ∧
    ((∀ received : Option Str, (do originAllowed received (← entries.mapM normalizeOrigin)) =
        originAllowed received entries) ↔
      ∀ entry ∈ entries, ¬ UncoversSpace entry) := by
  have honce (text normal : Str) (h : normalizeOrigin text = .ok normal) :
      normalizeOrigin normal = normalizeOrigin text ↔ ¬ UncoversSpace text := by
    rw [normalizeOrigin_normal h, h, Except.ok.injEq, trim_normal_eq_self_iff h]
  constructor
  · obtain ⟨normal, hnormal⟩ := exists_normalizeOrigin origin
    rw [← honce origin normal hnormal, hnormal]
    rfl
  · obtain ⟨normals, hnormals⟩ := Outcome.exists_mapM_eq_ok exists_normalizeOrigin entries
    have heach := Outcome.mapM_eq_ok_iff.1 hnormals
    rw [hnormals]
    change (∀ received, originAllowed received normals = originAllowed received entries) ↔ _
    constructor
    · intro hsame entry hmem huncovers
      -- the entry itself is allowed as an origin, but not by the list in normal form
      have hne := List.ne_nil_of_mem hmem
      refine originAllowed_normal_ne_true heach hne huncovers ?_
      exact (hsame (some entry)).trans ((originAllowed_eq_true_iff entry hne).2 ⟨entry, hmem, rfl⟩)
    · intro hclean received
      exact originAllowed_congr received (((List.forall₂_and_left _ _).2 ⟨hclean, heach⟩).imp
        fun entry normal h => (honce entry normal h.2).2 h.1)

/-- A default port behind white space. -/
def portBehindSpace : Str := ['h', 't', 't', 'p', ':', '/', '/', 'a', ' ', ':', '8', '0']

/-- White space uncovered by the first pass is removed by the second, and a list that was stored in
normal form refuses the origin it was written for. -/
theorem normalizeOrigin_not_idempotent :
    (do normalizeOrigin (← normalizeOrigin portBehindSpace)) ≠ normalizeOrigin portBehindSpace ∧
    (do originAllowed (some portBehindSpace) (← [portBehindSpace].mapM normalizeOrigin)) ≠
      originAllowed (some portBehindSpace) [portBehindSpace] := by
  decide

end WsKit
