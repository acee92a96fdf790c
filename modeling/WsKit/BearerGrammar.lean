import WsKit.Extractor

/-!
# The grammar of a bearer value

An `Authorization` value carries a bearer token when it begins with the seven bytes of the scheme
and its space, in any case, and the rest, without white space around it, is not empty. The test
of these bytes already shows that a character begins behind them.
-/

namespace WsKit.TokenExtractor

open Base

/-- The scheme in any case, white space, a token that neither begins nor ends with white space, and
white space again. -/
inductive BearerValue (token : Str) : Str → Prop where
  | mk (scheme before after : Str) (hscheme : toAsciiLowercase scheme = bearerScheme)
      (hbefore : ∀ c ∈ before, isWhitespace c = true) (hne : token ≠ []) (hends : Trimmed token)
      (hafter : ∀ c ∈ after, isWhitespace c = true) :
      BearerValue token (scheme ++ (before ++ (token ++ after)))

/-- A token is read from exactly the bearer values. -/
theorem bearerToken_eq_some_iff {s token : Str} :
    bearerToken s = some token ↔ BearerValue token s := by
  constructor
  · intro h
    have hscheme : eqIgnoreAsciiCase ((utf8 s).take 7) bearerPrefix = true := by
      rw [bearerToken, Option.ite_none_right_eq_some] at h
      exact h.1
    obtain ⟨scheme, rest, rfl, hfold⟩ := (beginsWithScheme_iff s).1 hscheme
    obtain ⟨htrim, hne⟩ := (bearerToken_scheme_eq_some_iff hfold).1 h
    obtain ⟨hends, before, after, rfl, hbefore, hafter⟩ := (trim_eq_iff hne).1 htrim
    exact .mk scheme before after hfold hbefore hne hends hafter
  · rintro ⟨scheme, before, after, hfold, hbefore, hne, hends, hafter⟩
    refine (bearerToken_scheme_eq_some_iff hfold).2 ⟨?_, hne⟩
    exact (trim_eq_iff hne).2 ⟨hends, before, after, rfl, hbefore, hafter⟩

/-- Parsing a bearer value never panics: where the test of the first seven bytes passes, a
character begins behind them. It gives a token exactly for the values of the grammar. -/
theorem parseBearer_grammar (s : Str) :
    (eqIgnoreAsciiCase ((utf8 s).take 7) bearerPrefix = true → isCharBoundary s 7 = true) ∧
    (∃ found, parseBearer s = .ok found) ∧
    ∀ token, parseBearer s = .ok (some token) ↔ BearerValue token s := by
  refine ⟨fun hbegins => ?_, ⟨_, parseBearer_eq s⟩, fun token => ?_⟩
  · obtain ⟨scheme, rest, rfl, hfold⟩ := (beginsWithScheme_iff s).1 hbegins
    rw [isCharBoundary, splitAtByte_scheme hfold, Option.isSome_some]
  · rw [parseBearer_eq, Except.ok.injEq]
    exact bearerToken_eq_some_iff

/-- White space of several bytes around a token of several bytes. -/
example : parseBearer (['B', 'e', 'A', 'r', 'e', 'r', ' ', '\u3000', 'é', ' ']) = .ok (some ['é']) := by
  decide

end WsKit.TokenExtractor
