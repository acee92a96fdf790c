import WsKit.Extractor
import WsKit.Hub
import WsKit.OriginMatch

/-!
# The gate in front of an upgrade

The configuration is built by calls in any order; a request is let through by its first `Origin`
header and the entries listed. An origin text means a scheme, a host and a port that is not the
scheme's default, or itself when it has no scheme. Two texts mean the same exactly when they
normalize to one text, well formed or not, so the gate compares meanings.
-/

namespace WsKit

open Base

/-- A span of time, in nanoseconds. -/
abbrev Duration := ℕ

/-- The configuration, with what a hub does not read. -/
structure FullWsConfig extends WsConfig where
  heartbeatInterval : Duration
  allowedOrigins : List Str
  deriving DecidableEq

/-- The default configuration. -/
def FullWsConfig.default : FullWsConfig where
  toWsConfig := WsConfig.default
  heartbeatInterval := 30 * 1000000000
  allowedOrigins := []

/-- Builder for the configuration. -/
structure WsConfigBuilder where
  heartbeatInterval : Duration
  broadcastCapacity : UInt64
  maxConnections : UInt64
  allowedOrigins : List Str
  deriving DecidableEq

namespace WsConfigBuilder

/-- The builder of the default configuration. -/
def default : WsConfigBuilder :=
  let d := FullWsConfig.default
  ⟨d.heartbeatInterval, d.broadcastCapacity, d.maxConnections, d.allowedOrigins⟩

/-- Set the heartbeat interval. -/
def setHeartbeatInterval (builder : WsConfigBuilder) (v : Duration) : WsConfigBuilder :=
  { builder with heartbeatInterval := v }

/-- Set the capacity of broadcast channels. -/
def setBroadcastCapacity (builder : WsConfigBuilder) (v : UInt64) : WsConfigBuilder :=
  { builder with broadcastCapacity := v }

/-- Set the connection limit. -/
def setMaxConnections (builder : WsConfigBuilder) (v : UInt64) : WsConfigBuilder :=
  { builder with maxConnections := v }

/-- Replace the allow-list. -/
def setAllowedOrigins (builder : WsConfigBuilder) (origins : List Str) : WsConfigBuilder :=
  { builder with allowedOrigins := origins }

/-- Add one origin to the allow-list. -/
def allowOrigin (builder : WsConfigBuilder) (origin : Str) : WsConfigBuilder :=
  { builder with allowedOrigins := builder.allowedOrigins ++ [origin] }

/-- Build the configuration. -/
def build (builder : WsConfigBuilder) : FullWsConfig where
  broadcastCapacity := builder.broadcastCapacity
  maxConnections := builder.maxConnections
  heartbeatInterval := builder.heartbeatInterval
  allowedOrigins := builder.allowedOrigins

end WsConfigBuilder

/-- The name of the header that carries the origin. -/
def originHeader : Str := ['o', 'r', 'i', 'g', 'i', 'n']

/-- Decide by the `Origin` header of an upgrade request. -/
def originAllowedInParts (parts : Parts) (allowedOrigins : List Str) : Outcome Empty Bool :=
  let origin := (parts.headers.get originHeader).bind HeaderValue.toStr
  originAllowed origin allowedOrigins

/-! ### Building a configuration -/

/-- A call of the builder. -/
inductive BuilderCall where
  | heartbeatInterval (v : Duration)
  | broadcastCapacity (v : UInt64)
  | maxConnections (v : UInt64)
  | allowedOrigins (origins : List Str)
  | allowOrigin (origin : Str)

namespace BuilderCall

/-- The builder after a call. -/
def apply (builder : WsConfigBuilder) : BuilderCall → WsConfigBuilder
  | .heartbeatInterval v => builder.setHeartbeatInterval v
  | .broadcastCapacity v => builder.setBroadcastCapacity v
  | .maxConnections v => builder.setMaxConnections v
  | .allowedOrigins origins => builder.setAllowedOrigins origins
  | .allowOrigin origin => builder.allowOrigin origin

/-- The entries that a call names. -/
def named : BuilderCall → List Str
  | .allowedOrigins origins => origins
  | .allowOrigin origin => [origin]
  | _ => []

/-- A call that replaces the allow-list. -/
def Replaces : BuilderCall → Prop
  | .allowedOrigins _ => True
  | _ => False

end BuilderCall

/-- The configuration after some calls. -/
def configured (calls : List BuilderCall) : FullWsConfig :=
  (calls.foldl BuilderCall.apply .default).build

/-- An entry that some call names and no later call replaces. -/
def Listed (calls : List BuilderCall) (entry : Str) : Prop :=
  ∃ before call after, calls = before ++ call :: after ∧ entry ∈ call.named ∧
    ∀ later ∈ after, ¬ later.Replaces

theorem not_listed_nil (entry : Str) : ¬ Listed [] entry := by
  rintro ⟨before, call, after, heq, -, -⟩
  exact List.append_ne_nil_of_right_ne_nil before (List.cons_ne_nil call after) heq.symm

/-- One more call lists what it names and keeps the rest, unless it replaces the list. -/
theorem listed_snoc {calls : List BuilderCall} {call : BuilderCall} {entry : Str} :
    Listed (calls ++ [call]) entry ↔
      entry ∈ call.named ∨ (¬ call.Replaces ∧ Listed calls entry) := by
  constructor
  · rintro ⟨before, first, after, heq, hnamed, hafter⟩
    obtain rfl | ⟨after', last, rfl⟩ := after.eq_nil_or_concat
    · obtain ⟨-, hcall⟩ := List.append_inj' heq rfl
      obtain rfl := List.head_eq_of_cons_eq hcall
      exact Or.inl hnamed
    · rw [List.concat_eq_append, ← List.cons_append, ← List.append_assoc] at heq
      obtain ⟨rfl, hlast⟩ := List.append_inj' heq rfl
      obtain rfl := List.head_eq_of_cons_eq hlast
      rw [List.concat_eq_append] at hafter
      refine Or.inr ⟨hafter call (by simp), before, first, after', rfl, hnamed, ?_⟩
      exact fun later hlater => hafter later (List.mem_append_left _ hlater)
  · rintro (hnamed | ⟨hkeeps, before, first, after, rfl, hnamed, hafter⟩)
    · exact ⟨calls, call, [], rfl, hnamed, by simp⟩
    · refine ⟨before, first, after ++ [call], by simp, hnamed, fun later hlater => ?_⟩
      obtain hlater | hlater := List.mem_append.1 hlater
      · exact hafter later hlater
      · obtain rfl := List.mem_singleton.1 hlater
        exact hkeeps

/-- The configuration holds the entries listed. -/
theorem mem_configured {calls : List BuilderCall} {entry : Str} :
    entry ∈ (configured calls).allowedOrigins ↔ Listed calls entry := by
  induction calls using List.reverseRecOn with
  | nil => exact iff_of_false List.not_mem_nil (not_listed_nil entry)
  | append_singleton calls call ih =>
    rw [listed_snoc, ← ih, configured, configured, List.foldl_append]
    generalize calls.foldl BuilderCall.apply .default = builder
    cases call with
    | heartbeatInterval v => simp [BuilderCall.named, BuilderCall.Replaces, BuilderCall.apply,
        WsConfigBuilder.build, WsConfigBuilder.setHeartbeatInterval]
    | broadcastCapacity v => simp [BuilderCall.named, BuilderCall.Replaces, BuilderCall.apply,
        WsConfigBuilder.build, WsConfigBuilder.setBroadcastCapacity]
    | maxConnections v => simp [BuilderCall.named, BuilderCall.Replaces, BuilderCall.apply,
        WsConfigBuilder.build, WsConfigBuilder.setMaxConnections]
    | allowedOrigins origins => simp [BuilderCall.named, BuilderCall.Replaces, BuilderCall.apply,
        WsConfigBuilder.build, WsConfigBuilder.setAllowedOrigins]
    | allowOrigin origin => simp [BuilderCall.named, BuilderCall.Replaces, BuilderCall.apply,
        WsConfigBuilder.build, WsConfigBuilder.allowOrigin, or_comm]

/-! ### What an origin means -/

/-- A scheme, a host and a port other than the default, or a text without a scheme. -/
inductive WebOrigin where
  | bare (text : Str)
  | full (scheme host : Str) (port : Option Str)

/-- The port that a folded scheme does not imply. -/
def significantPort (scheme : Str) (port : Option Str) : Option Str :=
  port.filter fun q => q ≠ [] ∧ ∀ d ∈ defaultPort scheme, parseU16 q ≠ some d

/-- The origin that a text means. The scheme ends at the first separator. -/
inductive Means (text : Str) : WebOrigin → Prop where
  | bare (hcut : splitOnce schemeSeparator (trim text) = none) :
      Means text (.bare (toAsciiLowercase (trim text)))
  | full {scheme authority host : Str} {port : Option Str}
      (hcut : splitOnce schemeSeparator (trim text) = some (scheme, authority))
      (hsplit : AuthoritySplit authority host port) :
      Means text (.full (toAsciiLowercase scheme) (toAsciiLowercase host)
        (significantPort (toAsciiLowercase scheme) port))

/-- Every text means an origin. -/
theorem exists_means (text : Str) : ∃ meaning, Means text meaning := by
  cases hcut : splitOnce schemeSeparator (trim text) with
  | none => exact ⟨_, .bare hcut⟩
  | some parts =>
    obtain ⟨host, port, hsplit⟩ := exists_authoritySplit parts.2
    exact ⟨_, .full hcut hsplit⟩

/-- Normalization writes the significant port. -/
theorem portSuffix_eq_portText (scheme : Str) (port : Option Str) :
    portSuffix scheme port = portText (significantPort scheme port) := by
  cases port with
  | none => rfl
  | some q =>
    have hdefault : isDefaultPort scheme q = false ↔
        ∀ d ∈ defaultPort scheme, parseU16 q ≠ some d := by
      rw [← Bool.not_eq_true, isDefaultPort_eq_true_iff]
      simp only [not_exists, not_and, Option.mem_def, ne_eq]
    rw [portSuffix, significantPort, Option.filter_some]
    simp only [decide_eq_true_eq, ← hdefault]
    by_cases hkeep : q ≠ [] ∧ isDefaultPort scheme q = false
    · rw [if_pos hkeep, if_pos hkeep, portText]
    · rw [if_neg hkeep, if_neg hkeep, portText]

theorem portText_injective : Function.Injective portText := by
  intro port port' heq
  cases port <;> cases port' <;> simp_all [portText]

namespace WebOrigin

/-- The normal text of an origin. -/
def text : WebOrigin → Str
  | .bare text => text
  | .full scheme host port => scheme ++ schemeSeparator ++ (host ++ portText port)

end WebOrigin

namespace Means

variable {text text' : Str} {meaning meaning' : WebOrigin}

/-- Normalization writes the meaning of a text. -/
theorem normalizeOrigin_eq (h : Means text meaning) : normalizeOrigin text = .ok meaning.text := by
  cases h with
  | bare hcut => exact normalizeOrigin_of_no_scheme hcut
  | full hcut hsplit => rw [normalizeOrigin_of_scheme hcut hsplit, portSuffix_eq_portText]; rfl

/-- A normal text is cut where its meaning says. -/
theorem splitOnce_text (h : Means text meaning) :
    splitOnce schemeSeparator meaning.text = match meaning with
      | .bare _ => none
      | .full scheme host port => some (scheme, host ++ portText port) := by
  cases h with
  | bare hcut =>
    exact (splitOnce_toAsciiLowercase separator_caseless (trim text)).trans (by rw [hcut]; rfl)
  | full hcut hsplit => exact splitOnce_folded hcut _

/-- What stands behind the scheme of a normal text is divided where its meaning says. -/
theorem authoritySplit {scheme host : Str} {port : Option Str} (h : Means text (.full scheme host port)) :
    AuthoritySplit (host ++ portText port) host port := by
  cases h with
  | @full scheme authority host port hcut hsplit =>
    obtain ⟨kept, hkept, hfolded⟩ := hsplit.folded (toAsciiLowercase scheme)
    rw [portSuffix_eq_portText] at hkept
    rw [portText_injective hkept]
    exact hfolded

/-- Two texts with one normal text mean one origin: the text is cut and divided in one way. -/
theorem eq_of_text_eq (h : Means text meaning) (h' : Means text' meaning')
    (heq : meaning.text = meaning'.text) : meaning = meaning' := by
  have hcut := h.splitOnce_text
  rw [heq, h'.splitOnce_text] at hcut
  cases meaning with
  | bare folded =>
    cases meaning' with
    | bare folded' => rw [show folded = folded' from heq]
    | full scheme host port => cases hcut
  | full scheme host port =>
    cases meaning' with
    | bare folded => cases hcut
    | full scheme' host' port' =>
      obtain ⟨rfl, hauthority⟩ := Prod.mk.inj (Option.some.inj hcut)
      have hsplit := h.authoritySplit
      rw [← hauthority] at hsplit
      obtain ⟨rfl, rfl⟩ := hsplit.unique h'.authoritySplit
      rfl

/-- A text means one origin. -/
theorem unique (h : Means text meaning) (h' : Means text meaning') : meaning = meaning' :=
  h.eq_of_text_eq h' (Except.ok.inj (h.normalizeOrigin_eq.symm.trans h'.normalizeOrigin_eq))

end Means

/-- Two texts normalize alike exactly when they mean one origin. -/
theorem normalizeOrigin_eq_iff {text text' : Str} :
    normalizeOrigin text = normalizeOrigin text' ↔
      ∃ meaning, Means text meaning ∧ Means text' meaning := by
  constructor
  · intro heq
    obtain ⟨meaning, h⟩ := exists_means text
    obtain ⟨meaning', h'⟩ := exists_means text'
    rw [h.normalizeOrigin_eq, h'.normalizeOrigin_eq] at heq
    obtain rfl := h.eq_of_text_eq h' (Except.ok.inj heq)
    exact ⟨meaning, h, h'⟩
  · rintro ⟨meaning, h, h'⟩
    rw [h.normalizeOrigin_eq, h'.normalizeOrigin_eq]

/-! ### Who is let through -/

/-- Whatever calls built the configuration, and whatever the request, the gate decides without a
panic. It lets a request through exactly when no entry is listed, or when the first `Origin`
header is readable and means the origin that a listed entry means. -/
theorem originAllowedInParts_iff (calls : List BuilderCall) (parts : Parts) :
    ∃ allowed, originAllowedInParts parts (configured calls).allowedOrigins = .ok allowed ∧
      (allowed = true ↔ (∀ entry, ¬ Listed calls entry) ∨
        ∃ value origin entry meaning, parts.headers.get originHeader = some value ∧
          HeaderValue.toStr value = some origin ∧ Listed calls entry ∧
          Means origin meaning ∧ Means entry meaning) := by
  rw [originAllowedInParts]
  generalize hheader : (parts.headers.get originHeader).bind HeaderValue.toStr = header
  obtain ⟨allowed, hallowed⟩ := exists_originAllowed header (configured calls).allowedOrigins
  refine ⟨allowed, hallowed, ?_⟩
  have hholds : ∀ entry, Listed calls entry ↔ entry ∈ (configured calls).allowedOrigins :=
    fun _ => mem_configured.symm
  simp only [hholds]
  by_cases hnil : (configured calls).allowedOrigins = []
  · rw [hnil] at hallowed ⊢
    rw [← Except.ok.inj hallowed]
    exact iff_of_true rfl (Or.inl fun _ => List.not_mem_nil)
  · have hlisted : ¬ ∀ entry, entry ∉ (configured calls).allowedOrigins :=
      fun h => hnil (List.eq_nil_iff_forall_not_mem.2 h)
    rw [or_iff_right hlisted]
    cases header with
    | none =>
      rw [originAllowed, if_neg hnil] at hallowed
      rw [← Except.ok.inj hallowed]
      refine iff_of_false Bool.false_ne_true ?_
      rintro ⟨value, origin, -, -, hvalue, horigin, -⟩
      rw [hvalue, Option.bind_some, horigin] at hheader
      cases hheader
    | some origin =>
      obtain ⟨value, hvalue, horigin⟩ := Option.bind_eq_some_iff.1 hheader
      have hiff := originAllowed_eq_true_iff origin hnil
      rw [hallowed, Except.ok.injEq] at hiff
      simp only [hiff, normalizeOrigin_eq_iff]
      constructor
      · rintro ⟨entry, hmem, meaning, hentry, hmeans⟩
        exact ⟨value, origin, entry, meaning, hvalue, horigin, hmem, hmeans, hentry⟩
      · rintro ⟨value', origin', entry, meaning, hvalue', horigin', hmem, hmeans, hentry⟩
        obtain rfl := Option.some.inj (hvalue.symm.trans hvalue')
        obtain rfl := Option.some.inj (horigin.symm.trans horigin')
        exact ⟨entry, hmem, meaning, hentry, hmeans⟩

end WsKit
