import WsKit.Base.AsciiBytes
import WsKit.Base.Fields

/-!
# Offering compression

A handshake header offers the compression extension when one of its elements, between commas and
without the white space around it, spells the name in any case. The header values of several lines,
joined as one list, offer what one of them offers.
-/

namespace WsKit

open Base

/-- The name of the extension. -/
def extensionName : Str :=
  ['x', '-', 'w', 's', '-', 'k', 'i', 't', '-', 'd', 'e', 'f', 'l', 'a', 't', 'e']

/-- Whether a handshake header value offers the extension. -/
def extensionAccepted (header : Option Str) : Bool :=
  header.any fun value => (value.splitOn ',').any fun token =>
    eqIgnoreAsciiCase (utf8 (trim token)) (utf8 extensionName)

/-- The value that offers compression. -/
def offerExtension : Str := extensionName

/-- Text that begins the header or follows a comma, white space, the name in any case, white space,
and text that ends the header or begins with a comma. -/
inductive OffersExtension : Str → Prop where
  | mk (before left name right after : Str) (hbefore : before = [] ∨ ∃ front, before = front ++ [','])
      (hleft : ∀ c ∈ left, isWhitespace c = true) (hname : toAsciiLowercase name = extensionName)
      (hright : ∀ c ∈ right, isWhitespace c = true) (hafter : after = [] ∨ ∃ back, after = ',' :: back) :
      OffersExtension (before ++ (left ++ (name ++ right) ++ after))

/-- The bytes of a text are compared as its characters. -/
theorem eqIgnoreAsciiCase_extensionName (token : Str) :
    eqIgnoreAsciiCase (utf8 token) (utf8 extensionName) = true ↔
      toAsciiLowercase token = extensionName := by
  have hfold : toAsciiLowercase extensionName = extensionName := by decide
  rw [eqIgnoreAsciiCase, decide_eq_true_eq, map_asciiLowerByte_utf8, map_asciiLowerByte_utf8, hfold]
  exact utf8_injective.eq_iff

/-- A spelling of the name has no white space. -/
theorem not_isWhitespace_of_spelling {name : Str} (h : toAsciiLowercase name = extensionName) :
    ∀ c ∈ name, isWhitespace c = false := by
  intro c hc
  have hmem : c.toLower ∈ extensionName := h ▸ List.mem_map_of_mem hc
  have hgraphic : ∀ d ∈ extensionName, 33 ≤ d.toNat ∧ d.toNat ≤ 126 := by
    simp [extensionName]
  rw [← isWhitespace_toLower]
  exact isWhitespace_of_graphic (hgraphic _ hmem)

/-- An element of a header spells the name when the name stands in it between white space. -/
theorem trim_spells_iff {token : Str} :
    toAsciiLowercase (trim token) = extensionName ↔
      ∃ left name right, token = left ++ (name ++ right) ∧ toAsciiLowercase name = extensionName ∧
        (∀ c ∈ left, isWhitespace c = true) ∧ ∀ c ∈ right, isWhitespace c = true := by
  constructor
  · intro h
    have hne : trim token ≠ [] := fun hnil => by
      rw [hnil] at h
      cases h
    obtain ⟨-, left, right, htoken, hleft, hright⟩ := (trim_eq_iff hne).1 rfl
    exact ⟨left, trim token, right, htoken, h, hleft, hright⟩
  · rintro ⟨left, name, right, htoken, hname, hleft, hright⟩
    have hne : name ≠ [] := fun hnil => by
      rw [hnil] at hname
      cases hname
    have htrimmed := trim_eq_self_iff.1 (trim_eq_self_of_forall (not_isWhitespace_of_spelling hname))
    rwa [(trim_eq_iff hne).2 ⟨htrimmed, left, right, htoken, hleft, hright⟩]

/-- No comma stands in the name or in white space. -/
theorem comma_notMem {left name right : Str} (hleft : ∀ c ∈ left, isWhitespace c = true)
    (hname : toAsciiLowercase name = extensionName) (hright : ∀ c ∈ right, isWhitespace c = true) :
    ',' ∉ left ++ (name ++ right) := by
  have hcomma : isWhitespace ',' = false := by decide
  intro hmem
  obtain hmem | hmem := List.mem_append.1 hmem
  · exact absurd (hleft _ hmem) (by simp [hcomma])
  · obtain hmem | hmem := List.mem_append.1 hmem
    · have hfold : ',' ∈ extensionName :=
        hname ▸ (mem_toAsciiLowercase (by simp [Caseless])).2 hmem
      exact absurd hfold (by decide)
    · exact absurd (hright _ hmem) (by simp [hcomma])

/-- The test is the grammar. -/
theorem extensionAccepted_iff (header : Str) :
    extensionAccepted (some header) = true ↔ OffersExtension header := by
  rw [extensionAccepted, Option.any_some, List.any_eq_true]
  simp only [eqIgnoreAsciiCase_extensionName]
  constructor
  · rintro ⟨token, hmem, hspells⟩
    obtain ⟨-, before, after, rfl, hbefore, hafter⟩ := mem_splitOn_iff.1 hmem
    obtain ⟨left, name, right, rfl, hname, hleft, hright⟩ := trim_spells_iff.1 hspells
    exact .mk before left name right after hbefore hleft hname hright hafter
  · rintro ⟨before, left, name, right, after, hbefore, hleft, hname, hright, hafter⟩
    refine ⟨left ++ (name ++ right), ?_, trim_spells_iff.2 ⟨left, name, right, rfl, hname, hleft, hright⟩⟩
    exact mem_splitOn_iff.2
      ⟨comma_notMem hleft hname hright, before, after, rfl, hbefore, hafter⟩

/-- An empty value offers nothing. -/
theorem extensionAccepted_nil : extensionAccepted (some []) = false := by decide

/-- White space in front of a value does not matter. -/
theorem extensionAccepted_space_cons (value : Str) :
    extensionAccepted (some (' ' :: value)) = extensionAccepted (some value) := by
  have hspace : (' ' == ',') = false := by decide
  obtain ⟨token, rest, hsplit⟩ := List.exists_cons_of_ne_nil (List.splitOn_ne_nil ',' value)
  rw [extensionAccepted, extensionAccepted, Option.any_some, Option.any_some,
    List.splitOn_cons_eq_if_modifyHead, hspace, hsplit]
  simp only [Bool.false_eq_true, if_false, List.modifyHead_cons, List.any_cons, trim_space_cons]

/-- Behind a comma another value begins. -/
theorem extensionAccepted_append (value rest : Str) :
    extensionAccepted (some (value ++ ',' :: rest)) =
      (extensionAccepted (some value) || extensionAccepted (some rest)) := by
  simp only [extensionAccepted, Option.any_some, List.splitOn_append_cons_self, List.any_append]

/-- A header offers the extension exactly when the name stands in it as a whole element, in any
case; without a header nothing is offered. Values joined with a comma and a space, whatever they
hold, offer it exactly when one of them does. -/
theorem extensionAccepted_grammar :
    extensionAccepted none = false ∧
    (∀ header, extensionAccepted (some header) = true ↔ OffersExtension header) ∧
    ∀ values : List Str, extensionAccepted (some ([',', ' '].intercalate values)) =
      values.any fun value => extensionAccepted (some value) := by
  refine ⟨rfl, extensionAccepted_iff, fun values => ?_⟩
  induction values with
  | nil => exact extensionAccepted_nil
  | cons value values ih =>
    cases values with
    | nil => rw [List.intercalate_singleton, List.any_cons, List.any_nil, Bool.or_false]
    | cons next rest =>
      have hjoined : [',', ' '].intercalate (value :: next :: rest) =
          value ++ ',' :: ' ' :: [',', ' '].intercalate (next :: rest) := by
        rw [List.intercalate_cons_cons, List.append_assoc]
        rfl
      rw [hjoined, extensionAccepted_append, extensionAccepted_space_cons, ih]
      rfl

/-- What is offered is accepted among other extensions, and not as a part of another name. -/
example : extensionAccepted (some (['d', 'e', 'f', 'l', 'a', 't', 'e', ','] ++ offerExtension)) = true ∧
    extensionAccepted (some ('y' :: offerExtension)) = false := by decide

end WsKit
