import WsKit.Base.Channel
import WsKit.Counter

/-!
# Admission at a hub

A hub counts its connections under a limit that the caller passes with each increment. The
configuration's limit means any number when it is zero, while the counter takes every limit for
one. Calls are made one after another here; each is a run of the shared counter that no other
thread interrupts.
-/

namespace WsKit

open Base

/-- What a hub reads of the configuration; both are 64-bit `usize` values. -/
structure WsConfig where
  broadcastCapacity : UInt64
  maxConnections : UInt64
  deriving DecidableEq

namespace WsConfig

/-- The default configuration. -/
def default : WsConfig := ⟨1024, 1000⟩

end WsConfig

namespace ConnectionCounter

/-- An increment that nothing interrupts: its result, and the count that it leaves. -/
def increment (overflowChecks : Bool) (inner : UInt64) :
    Option UInt64 → Outcome WsError UInt64 × UInt64
  | none => (Outcome.addU64 overflowChecks inner 1, inner + 1)
  | some limit =>
    if limit ≤ inner then (.error (.failed .tooManyConnections), inner)
    else
      match (Outcome.addU64 overflowChecks inner 1 : Outcome WsError UInt64) with
      | .error fault => (.error fault, inner)
      | .ok next => (.ok next, next)

/-- A decrement that nothing interrupts: the count that it returns and leaves. -/
def decrement (inner : UInt64) : UInt64 × UInt64 :=
  let next := (saturatingDec inner).getD inner
  (next, next)

section Uninterrupted

variable {ι : Type*} [DecidableEq ι]

/-- A call that one thread runs alone ends with its thread idle again, the count and the result
being those of `increment`. -/
theorem run_increment (overflowChecks : Bool) {s : State ι} {t : ι} (hidle : s.pc t = .idle)
    (max : Option UInt64) (tr : List (Obs ι)) :
    ∃ n s', (machine ι overflowChecks).run (.increment t max :: List.replicate n (.advance t))
        (s, tr) = some (s', tr ++ [.incremented t (increment overflowChecks s.inner max).1]) ∧
      s'.inner = (increment overflowChecks s.inner max).2 ∧ s'.pc = s.pc := by
  have hback : Function.update s.pc t .idle = s.pc := by rw [← hidle, Function.update_eq_self]
  cases max with
  | none =>
    refine ⟨1, s.store (s.inner + 1), ?_, rfl, rfl⟩
    simp [Machine.run, machine, step, State.goto, State.store, hidle, hback, increment]
  | some limit =>
    by_cases hfull : limit ≤ s.inner
    · refine ⟨2, s, ?_, ?_, rfl⟩
      · simp [Machine.run, machine, step, State.goto, hidle, hback, hfull, increment]
      · simp [increment, hfull]
    · cases hnext : (Outcome.addU64 overflowChecks s.inner 1 : Outcome WsError UInt64) with
      | error fault =>
        refine ⟨3, s, ?_, ?_, rfl⟩
        · simp [Machine.run, machine, step, State.goto, hidle, hback, hfull, hnext, increment]
        · simp [increment, hfull, hnext]
      | ok next =>
        refine ⟨3, s.store next, ?_, ?_, rfl⟩
        · simp [Machine.run, machine, step, State.goto, State.store, hidle, hback, hfull, hnext,
            increment]
        · simp [increment, hfull, hnext]

/-- So does a decrement. -/
theorem run_decrement (overflowChecks : Bool) {s : State ι} {t : ι} (hidle : s.pc t = .idle)
    (tr : List (Obs ι)) :
    ∃ out s', (machine ι overflowChecks).run (.decrement t :: List.replicate 2 (.advance t))
        (s, tr) = some (s', tr ++ out ++ [.decremented t (decrement s.inner).1]) ∧
      s'.inner = (decrement s.inner).2 ∧ s'.pc = s.pc := by
  have hback : Function.update s.pc t .idle = s.pc := by rw [← hidle, Function.update_eq_self]
  by_cases hzero : s.inner = 0
  · have hsame : ({ inner := 0, pc := s.pc } : State ι) = s := by rw [← hzero]
    refine ⟨[.decrementing t, .updated t true], s, ?_, ?_, rfl⟩
    · simp [Machine.run, machine, step, State.goto, hidle, hback, saturatingDec, hzero, decrement,
        hsame]
    · simp [decrement, saturatingDec, hzero]
  · refine ⟨[.decrementing t, .updated t false], s.store (s.inner - 1), ?_, ?_, rfl⟩
    · simp [Machine.run, machine, step, State.goto, State.store, hidle, hback, saturatingDec, hzero,
        decrement]
    · simp [decrement, saturatingDec, hzero]

end Uninterrupted

end ConnectionCounter

/-- A typed broadcast hub. -/
structure BroadcastHub (α : Type*) where
  tx : Channel α
  connectionCount : UInt64

namespace BroadcastHub

variable {α : Type*}

/-- A new hub; a capacity that the channel does not accept panics. -/
def new [ChannelApi α] (capacity : UInt64) : Option (BroadcastHub α) :=
  (Channel.channel capacity.toNat).map fun tx => { tx, connectionCount := 0 }

/-- A hub from the configuration. -/
def fromConfig [ChannelApi α] (config : WsConfig) : Option (BroadcastHub α) :=
  new config.broadcastCapacity

/-- Increment the connection counter. -/
def incrementConnections (overflowChecks : Bool) (hub : BroadcastHub α) (max : Option UInt64) :
    Outcome WsError UInt64 × BroadcastHub α :=
  let called := ConnectionCounter.increment overflowChecks hub.connectionCount max
  (called.1, { hub with connectionCount := called.2 })

/-- Decrement the connection counter, saturating. -/
def decrementConnections (hub : BroadcastHub α) : UInt64 × BroadcastHub α :=
  let called := ConnectionCounter.decrement hub.connectionCount
  (called.1, { hub with connectionCount := called.2 })

/-- The calls of a caller that threads the configured limit through. -/
inductive Call where
  | increment
  | decrement
  deriving DecidableEq

/-- What a call returns. -/
inductive Returned where
  | incremented (result : Outcome WsError UInt64)
  | decremented (count : UInt64)
  deriving DecidableEq

/-- Calls one after another, each increment under the configured limit. -/
def admissions (α : Type*) (overflowChecks : Bool) (config : WsConfig) :
    Machine (BroadcastHub α) Call Returned where
  step hub
    | .increment =>
      let called := hub.incrementConnections overflowChecks (some config.maxConnections)
      some (called.2, [.incremented called.1])
    | .decrement =>
      let called := hub.decrementConnections
      some (called.2, [.decremented called.1])

/-- The next increment is refused exactly at the limit, where zero is no limit, and then leaves the
count alone. -/
def FollowsLimit (overflowChecks : Bool) (config : WsConfig) (hub : BroadcastHub α) : Prop :=
  ((hub.incrementConnections overflowChecks (some config.maxConnections)).1 =
      .error (.failed .tooManyConnections) ↔
    config.maxConnections ≠ 0 ∧ hub.connectionCount = config.maxConnections) ∧
  ((hub.incrementConnections overflowChecks (some config.maxConnections)).1 =
      .error (.failed .tooManyConnections) →
    (hub.incrementConnections overflowChecks (some config.maxConnections)).2.connectionCount =
      hub.connectionCount)

variable {overflowChecks : Bool} {config : WsConfig}

/-- An increment at its limit, or above it, is refused without effect. -/
theorem increment_of_le {inner limit : UInt64} (h : limit ≤ inner) :
    ConnectionCounter.increment overflowChecks inner (some limit) =
      (.error (.failed .tooManyConnections), inner) := by
  simp only [ConnectionCounter.increment, if_pos h]

/-- An increment below its limit succeeds. -/
theorem increment_of_lt {inner limit : UInt64} (h : inner < limit) :
    ConnectionCounter.increment overflowChecks inner (some limit) =
      (.ok (inner + 1), inner + 1) := by
  simp only [ConnectionCounter.increment, if_neg (UInt64.not_le.2 h),
    ConnectionCounter.addU64_one_of_lt overflowChecks h]

/-- Under a limit an increment is refused exactly when the limit is reached. -/
theorem incrementConnections_refused_iff {hub : BroadcastHub α} {limit : UInt64} :
    (hub.incrementConnections overflowChecks (some limit)).1 = .error (.failed .tooManyConnections) ↔
      limit ≤ hub.connectionCount := by
  rw [incrementConnections]
  by_cases h : limit ≤ hub.connectionCount
  · rw [increment_of_le h]
    exact iff_of_true rfl h
  · rw [increment_of_lt (UInt64.not_le.1 h)]
    exact iff_of_false (fun hrefused => by cases hrefused) h

/-- No call takes the count above the limit. -/
theorem le_of_step {hub hub' : BroadcastHub α} {call : Call} {out : List Returned}
    (hle : hub.connectionCount ≤ config.maxConnections)
    (h : (admissions α overflowChecks config).step hub call = some (hub', out)) :
    hub'.connectionCount ≤ config.maxConnections := by
  cases call with
  | increment =>
    obtain ⟨rfl, -⟩ := Prod.mk.inj (Option.some.inj h)
    rw [incrementConnections]
    by_cases hfull : config.maxConnections ≤ hub.connectionCount
    · rw [increment_of_le hfull]
      exact hle
    · have hroom := UInt64.not_le.1 hfull
      rw [increment_of_lt hroom, UInt64.le_iff_toNat_le]
      dsimp only
      rw [ConnectionCounter.toNat_add_one_of_lt hroom]
      exact UInt64.lt_iff_toNat_lt.1 hroom
  | decrement =>
    obtain ⟨rfl, -⟩ := Prod.mk.inj (Option.some.inj h)
    rw [decrementConnections, ConnectionCounter.decrement, ConnectionCounter.saturatingDec]
    by_cases hzero : hub.connectionCount = 0
    · rw [if_pos hzero]
      exact hle
    · rw [if_neg hzero, UInt64.le_iff_toNat_le] at *
      have hprev := ConnectionCounter.toNat_sub_one hzero
      dsimp only [Option.getD_some]
      omega

/-- A hub starts at zero. -/
theorem connectionCount_of_fromConfig [ChannelApi α] {hub : BroadcastHub α} (h : fromConfig config = some hub) :
    hub.connectionCount = 0 := by
  obtain ⟨tx, _, rfl⟩ := Option.map_eq_some_iff.1 h
  rfl

/-- After all calls the count is within the limit. -/
theorem le_of_run [ChannelApi α] {hub hub' : BroadcastHub α} {calls : List Call} {tr : List Returned}
    (hbuilt : fromConfig config = some hub)
    (hrun : (admissions α overflowChecks config).run calls (hub, []) = some (hub', tr)) :
    hub'.connectionCount ≤ config.maxConnections := by
  refine Machine.run_induct_all
    (P := fun hub _ => hub.connectionCount ≤ config.maxConnections)
    (fun _ _ _ _ _ hle he => le_of_step hle he) hrun ?_
  rw [connectionCount_of_fromConfig hbuilt]
  exact UInt64.zero_le

/-- After every sequence of calls a hub follows the configured limit, exactly when the limit is not
zero. With zero, which is documented as no limit, every increment is refused. -/
theorem followsLimit_iff [ChannelApi α] (overflowChecks : Bool) {config : WsConfig}
    {hub : BroadcastHub α}    (hbuilt : fromConfig config = some hub) :
    ((∀ calls hub' tr,
        (admissions α overflowChecks config).run calls (hub, []) = some (hub', tr) →
        FollowsLimit overflowChecks config hub') ↔ config.maxConnections ≠ 0) ∧
    (config.maxConnections = 0 → ∀ calls hub' tr,
      (admissions α overflowChecks config).run calls (hub, []) = some (hub', tr) →
      (hub'.incrementConnections overflowChecks (some config.maxConnections)).1 =
        .error (.failed .tooManyConnections)) := by
  have hzero : config.maxConnections = 0 → ∀ hub' : BroadcastHub α,
      (hub'.incrementConnections overflowChecks (some config.maxConnections)).1 =
        .error (.failed .tooManyConnections) := by
    intro h hub'
    rw [incrementConnections_refused_iff, h]
    exact UInt64.zero_le
  refine ⟨⟨fun h hunlimited => ?_, fun hlimit calls hub' tr hrun => ⟨?_, ?_⟩⟩,
    fun h _ hub' _ _ => hzero h hub'⟩
  · exact ((h [] hub [] rfl).1.1 (hzero hunlimited hub)).1 hunlimited
  · rw [incrementConnections_refused_iff]
    constructor
    · intro hfull
      exact ⟨hlimit, UInt64.le_antisymm (le_of_run hbuilt hrun) hfull⟩
    · rintro ⟨-, heq⟩
      rw [heq]
      exact UInt64.le_refl _
  · intro hrefused
    rw [incrementConnections, increment_of_le (incrementConnections_refused_iff.1 hrefused)]

/-- A limit of one is followed after an increment. -/
theorem followsLimit_one : ∃ hub hub' : BroadcastHub Str, ∃ tr, fromConfig ⟨16, 1⟩ = some hub ∧
    (admissions Str true ⟨16, 1⟩).run [.increment] (hub, []) = some (hub', tr) ∧
    FollowsLimit true ⟨16, 1⟩ hub' :=
  ⟨_, _, _, rfl, rfl, ((followsLimit_iff true rfl).1.2 (by decide)) [.increment] _ _ rfl⟩

/-- The documented value for no limit refuses the first connection. -/
theorem unlimited_refuses :
    ¬ ∀ (overflowChecks : Bool) (config : WsConfig) (hub : BroadcastHub Str),
      fromConfig config = some hub → ∀ calls hub' tr,
      (admissions Str overflowChecks config).run calls (hub, []) = some (hub', tr) →
      FollowsLimit overflowChecks config hub' := by
  intro h
  have hfollows := h true ⟨1024, 0⟩ ⟨⟨1024, 0, ∅, []⟩, 0⟩ rfl [] _ [] rfl
  exact absurd (hfollows.1.1 rfl).1 (by decide)

end BroadcastHub

end WsKit
