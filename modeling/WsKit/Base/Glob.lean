import WsKit.Base.Utf8
import Mathlib.Algebra.Ring.Nat
import Mathlib.Data.List.Forall2
import Mathlib.Data.List.Infix

/-!
# Glob patterns

`*` stands for any run of characters, `?` for one character, `[...]` for one of a class, and a
backslash escapes the next character. A class may begin with `^`, lists characters and ranges
in either direction, and ends with the pattern if nothing closes it.

A pattern that matches a text and everything that begins with it ends in tokens that accept
whatever comes, with a run among them.
-/

namespace Base.Glob

/-- An element of a pattern. -/
inductive Token where
  | run
  | one
  | literal (c : Char)
  | oneOf (negated : Bool) (ranges : List (Char × Char))
  deriving DecidableEq

/-- The token accepts a character. -/
def Token.accepts : Token → Char → Bool
  | .run, _ => true
  | .one, _ => true
  | .literal c, d => c = d
  | .oneOf negated ranges, d =>
    (ranges.any fun r => (r.1 ≤ d && d ≤ r.2) || (r.2 ≤ d && d ≤ r.1)) != negated

/-- The tokens of a pattern, read from outside or from within a class. -/
def tokensFrom : Option (Bool × List (Char × Char)) → Str → List Token
  | none, [] => []
  | some (negated, ranges), [] => [.oneOf negated ranges]
  | none, c :: p =>
    if c = '*' then .run :: tokensFrom none p
    else if c = '?' then .one :: tokensFrom none p
    else if c = '[' then
      match p with
      | d :: rest =>
        if d = '^' then tokensFrom (some (true, [])) rest
        else tokensFrom (some (false, [])) (d :: rest)
      | [] => tokensFrom (some (false, [])) []
    else if c = '\\' then
      match p with
      | d :: rest => .literal d :: tokensFrom none rest
      | [] => [.literal c]
    else .literal c :: tokensFrom none p
  | some (negated, ranges), c :: p =>
    if c = ']' then .oneOf negated ranges :: tokensFrom none p
    else
      match p with
      | d :: e :: rest =>
        if c = '\\' then tokensFrom (some (negated, ranges ++ [(d, d)])) (e :: rest)
        else if d = '-' then tokensFrom (some (negated, ranges ++ [(c, e)])) rest
        else tokensFrom (some (negated, ranges ++ [(c, c)])) (d :: e :: rest)
      | [d] =>
        if c = '\\' then tokensFrom (some (negated, ranges ++ [(d, d)])) []
        else tokensFrom (some (negated, ranges ++ [(c, c)])) [d]
      | [] => tokensFrom (some (negated, ranges ++ [(c, c)])) []

/-- The tokens of a pattern. -/
def tokens (p : Str) : List Token := tokensFrom none p

/-- The tokens match a text. -/
def matched : List Token → Str → Bool
  | [], s => s.isEmpty
  | .run :: ts, s => s.tails.any (matched ts)
  | t :: ts, s =>
    match s with
    | [] => false
    | c :: rest => t.accepts c && matched ts rest

/-- The pattern matches a text. -/
def globMatch (p s : Str) : Bool := matched (tokens p) s

/-- Every character is accepted. -/
def Token.Universal (t : Token) : Prop := ∀ c, t.accepts c = true

/-- After their last run, the tokens accept every character. -/
def OpenEnded (ts : List Token) : Prop :=
  ∃ front back, ts = front ++ .run :: back ∧ .run ∉ back ∧ ∀ t ∈ back, t.Universal

/-! ### Matching, token by token -/

/-- A run matches any leading part. -/
theorem matched_run {ts : List Token} {s : Str} :
    matched (.run :: ts) s = true ↔ ∃ left right, s = left ++ right ∧ matched ts right = true := by
  rw [matched, List.any_eq_true]
  constructor
  · rintro ⟨right, hright, hmatched⟩
    obtain ⟨left, rfl⟩ := (List.mem_tails _ _).1 hright
    exact ⟨left, right, rfl, hmatched⟩
  · rintro ⟨left, right, rfl, hmatched⟩
    exact ⟨right, (List.mem_tails _ _).2 (List.suffix_append left right), hmatched⟩

/-- Any other token matches the first character. -/
theorem matched_cons {t : Token} (ht : t ≠ .run) {ts : List Token} {s : Str} :
    matched (t :: ts) s = true ↔
      ∃ c rest, s = c :: rest ∧ t.accepts c = true ∧ matched ts rest = true := by
  cases s with
  | nil => cases t <;> simp [matched] at ht ⊢
  | cons c rest => cases t <;> simp [matched] at ht ⊢

/-- Tokens one after another match texts one after another. -/
theorem matched_append {front back : List Token} {s : Str} :
    matched (front ++ back) s = true ↔
      ∃ left right, s = left ++ right ∧ matched front left = true ∧ matched back right = true := by
  induction front generalizing s with
  | nil =>
    constructor
    · intro h
      exact ⟨[], s, rfl, rfl, h⟩
    · rintro ⟨left, right, rfl, hleft, hright⟩
      rw [matched, List.isEmpty_iff] at hleft
      rw [hleft]
      exact hright
  | cons t front ih =>
    by_cases ht : t = .run
    · rw [ht, List.cons_append, matched_run]
      constructor
      · rintro ⟨skipped, rest, rfl, hrest⟩
        obtain ⟨left, right, rfl, hleft, hright⟩ := ih.1 hrest
        exact ⟨skipped ++ left, right, by simp, matched_run.2 ⟨skipped, left, rfl, hleft⟩, hright⟩
      · rintro ⟨left, right, rfl, hleft, hright⟩
        obtain ⟨skipped, rest, rfl, hrest⟩ := matched_run.1 hleft
        exact ⟨skipped, rest ++ right, by simp, ih.2 ⟨rest, right, rfl, hrest, hright⟩⟩
    · rw [List.cons_append, matched_cons ht]
      constructor
      · rintro ⟨c, rest, rfl, hc, hrest⟩
        obtain ⟨left, right, rfl, hleft, hright⟩ := ih.1 hrest
        exact ⟨c :: left, right, rfl, (matched_cons ht).2 ⟨c, left, rfl, hc, hleft⟩, hright⟩
      · rintro ⟨left, right, rfl, hleft, hright⟩
        obtain ⟨c, rest, rfl, hc, hrest⟩ := (matched_cons ht).1 hleft
        exact ⟨c, rest ++ right, rfl, hc, ih.2 ⟨rest, right, rfl, hrest, hright⟩⟩

/-- Without runs the tokens match character by character. -/
theorem matched_iff_forall₂ {ts : List Token} (hts : .run ∉ ts) {s : Str} :
    matched ts s = true ↔ List.Forall₂ (fun t c => t.accepts c = true) ts s := by
  induction ts generalizing s with
  | nil =>
    rw [matched, List.isEmpty_iff, List.forall₂_nil_left_iff]
  | cons t ts ih =>
    rw [List.mem_cons, not_or] at hts
    rw [matched_cons (Ne.symm hts.1), List.forall₂_cons_left_iff]
    constructor
    · rintro ⟨c, rest, rfl, hc, hrest⟩
      exact ⟨c, rest, hc, (ih hts.2).1 hrest, rfl⟩
    · rintro ⟨c, rest, hc, hrest, rfl⟩
      exact ⟨c, rest, rfl, hc, (ih hts.2).2 hrest⟩

/-! ### Texts and everything that begins with them -/

/-- The last run among tokens. -/
theorem exists_last_run {ts : List Token} (h : .run ∈ ts) :
    ∃ front back, ts = front ++ .run :: back ∧ .run ∉ back := by
  obtain ⟨back, front, hreverse, hback⟩ := List.eq_append_cons_of_mem (List.mem_reverse.2 h)
  refine ⟨front.reverse, back.reverse, ?_, by simpa using hback⟩
  rw [← List.reverse_reverse ts, hreverse]
  simp

/-- Tokens that accept every character match every text of their number. -/
theorem matched_of_universal {back : List Token} (hback : ∀ t ∈ back, t.Universal)
    (hrun : .run ∉ back) {s : Str} (h : s.length = back.length) : matched back s = true := by
  rw [matched_iff_forall₂ hrun]
  induction back generalizing s with
  | nil =>
    rw [List.length_eq_zero_iff.1 h]
    exact .nil
  | cons t back ih =>
    cases s with
    | nil => cases h
    | cons c s =>
      rw [List.mem_cons, not_or] at hrun
      exact .cons (hback t List.mem_cons_self c)
        (ih (fun t' ht' => hback t' (List.mem_cons_of_mem t ht')) hrun.2 (Nat.succ.inj h))

/-- Tokens that match every text with a given beginning are open-ended: after the last run, one
that rejected a character could not match a text that ends in nothing else. -/
theorem openEnded_of_forall {ts : List Token} {s : Str} (h : ∀ r, matched ts (s ++ r) = true) :
    OpenEnded ts := by
  by_cases hrun : .run ∈ ts
  · obtain ⟨front, back, rfl, hback⟩ := exists_last_run hrun
    refine ⟨front, back, rfl, hback, fun t ht c => ?_⟩
    obtain ⟨left, right, heq, _, hright⟩ := matched_append.1 (h (List.replicate back.length c))
    obtain ⟨skipped, last, rfl, hlast⟩ := matched_run.1 hright
    have hpointwise := (matched_iff_forall₂ hback).1 hlast
    have hsame : last = List.replicate back.length c := by
      rw [← List.append_assoc] at heq
      exact (List.append_inj_right' heq (by
        rw [List.length_replicate, hpointwise.length_eq])).symm
    obtain ⟨i, hi, rfl⟩ := List.getElem_of_mem ht
    have haccepts := hpointwise.get hi (by rw [hsame, List.length_replicate]; exact hi)
    simpa [hsame] using haccepts
  · have hempty := ((matched_iff_forall₂ hrun).1 (h [])).length_eq
    have hlonger := ((matched_iff_forall₂ hrun).1 (h ['x'])).length_eq
    simp only [List.length_append, List.length_nil, List.length_cons] at hempty hlonger
    omega

/-- Open-ended tokens that match a text match everything that begins with it. -/
theorem matched_append_of_openEnded {ts : List Token} (hts : OpenEnded ts) {s : Str}
    (h : matched ts s = true) (r : Str) : matched ts (s ++ r) = true := by
  obtain ⟨front, back, rfl, hrun, hback⟩ := hts
  obtain ⟨left, right, rfl, hleft, hright⟩ := matched_append.1 h
  obtain ⟨skipped, last, rfl, hlast⟩ := matched_run.1 hright
  have hlength := ((matched_iff_forall₂ hrun).1 hlast).length_eq
  -- the run takes all but as many characters as there are tokens behind it
  have hsplit := List.take_append_drop ((last ++ r).length - back.length) (last ++ r)
  refine matched_append.2 ⟨left, skipped ++ (last ++ r), by simp, hleft, matched_run.2
    ⟨skipped ++ (last ++ r).take ((last ++ r).length - back.length), _, ?_,
      matched_of_universal hback hrun
        (s := (last ++ r).drop ((last ++ r).length - back.length)) ?_⟩⟩
  · rw [List.append_assoc, hsplit]
  · rw [List.length_drop, List.length_append]
    omega

/-- Tokens match everything that begins with a text exactly when they match the text and are
open-ended. -/
theorem forall_matched_append_iff {ts : List Token} {s : Str} :
    (∀ r, matched ts (s ++ r) = true) ↔ matched ts s = true ∧ OpenEnded ts := by
  constructor
  · intro h
    exact ⟨by simpa using h [], openEnded_of_forall h⟩
  · rintro ⟨hmatched, hopen⟩ r
    exact matched_append_of_openEnded hopen hmatched r

/-! ### Plain patterns -/

/-- The token of a character that begins neither a class nor an escape. -/
def plainToken (c : Char) : Token := if c = '*' then .run else if c = '?' then .one else .literal c

/-- No class and no escape. -/
def Plain (p : Str) : Prop := '[' ∉ p ∧ '\\' ∉ p

/-- A plain beginning is read character by character. -/
theorem tokens_append_of_plain {p : Str} (h : Plain p) (q : Str) :
    tokens (p ++ q) = p.map plainToken ++ tokens q := by
  induction p with
  | nil => rfl
  | cons c p ih =>
    obtain ⟨hclass, hescape⟩ := h
    rw [List.mem_cons, not_or] at hclass hescape
    have hrest := ih ⟨hclass.2, hescape.2⟩
    rw [tokens] at hrest
    rw [List.cons_append, tokens, tokensFrom.eq_def]
    simp only [if_neg (Ne.symm hclass.1), if_neg (Ne.symm hescape.1), List.map_cons, plainToken,
      List.cons_append, hrest]
    split
    · rfl
    · split <;> rfl

/-- A plain pattern accepts its own characters. -/
theorem plainToken_accepts (c : Char) : (plainToken c).accepts c = true := by
  rw [plainToken]
  split
  · rfl
  · split
    · rfl
    · simp [Token.accepts]

/-- A plain pattern matches its own text. -/
theorem matched_map_plainToken (p : Str) : matched (p.map plainToken) p = true := by
  induction p with
  | nil => rfl
  | cons c p ih =>
    rw [List.map_cons]
    by_cases hrun : plainToken c = .run
    · rw [hrun]
      exact matched_run.2 ⟨[c], p, rfl, ih⟩
    · exact (matched_cons hrun).2 ⟨c, p, rfl, plainToken_accepts c, ih⟩

/-- A plain pattern without stars matches only texts of its length, so what follows it in the
pattern has to match what follows it in the text. -/
theorem matched_tokens_append_of_plain {p : Str} (h : Plain p) (hstar : '*' ∉ p) {q s : Str} :
    matched (tokens (p ++ q)) (p ++ s) = true ↔ matched (tokens q) s = true := by
  rw [tokens_append_of_plain h, matched_append]
  have hrun : .run ∉ p.map plainToken := by
    rw [List.mem_map]
    rintro ⟨c, hc, hplain⟩
    rw [plainToken] at hplain
    split at hplain
    · rename_i hcstar
      exact hstar (hcstar ▸ hc)
    · split at hplain <;> cases hplain
  constructor
  · rintro ⟨left, right, heq, hleft, hright⟩
    have hlength := ((matched_iff_forall₂ hrun).1 hleft).length_eq
    rw [List.length_map] at hlength
    rwa [(List.append_inj heq hlength).2]
  · intro hright
    exact ⟨p, s, rfl, matched_map_plainToken p, hright⟩

end Base.Glob
