import WsKit.Base.Ledger
import WsKit.Counter
import WsKit.Stats

/-!
# Gauges that are counted and exported

A recorder counts connections and rooms on two atomics. A call changes its atomic, takes the value
to report, and, with the metrics feature, sets the exported gauge to it; each of these is a step of
its own, but for the increment, which takes the value that its own `fetch_add` leaves. The code
sets the gauge to the value as an `f64`. Here it is the integer before that conversion, which rounds
values above `2 ^ 53`.
-/

namespace WsKit.Gauges

open Base ConnectionCounter

/-- What is counted, and exported under its own name. -/
inductive Gauge where
  | connections
  | rooms
  deriving DecidableEq

/-- What a call returns of the value that it has: only the connection calls return it. -/
def Gauge.result : Gauge → UInt64 → Option UInt64
  | .connections, v => some v
  | .rooms, _ => none

/-- Where a thread stands in a call. -/
inductive Pc where
  | idle
  | adding (g : Gauge)
  | lowering (g : Gauge)
  | loading (g : Gauge)
  | setting (g : Gauge) (v : UInt64)
  deriving DecidableEq

/-- The atomics, the values that the exported gauges were set to last, and the threads. -/
structure State (ι : Type*) where
  counts : Gauge → UInt64
  gauge : Gauge → Option UInt64
  pc : ι → Pc

/-- A thread starts a call that adds or one that lowers, or takes the next step of its call. -/
inductive Event (ι : Type*) where
  | add (t : ι) (g : Gauge)
  | lower (t : ι) (g : Gauge)
  | advance (t : ι)
  deriving DecidableEq

/-- What calls show: their atomic updates, their loads, the values they set, and how they end. -/
inductive Obs (ι : Type*) where
  | added (t : ι) (g : Gauge)
  | lowered (t : ι) (g : Gauge) (saturated : Bool)
  | loaded (t : ι) (g : Gauge)
  | set (t : ι) (g : Gauge) (v : UInt64)
  | returned (t : ι) (g : Gauge) (result : Option UInt64)
  | panicked (t : ι) (g : Gauge)
  deriving DecidableEq

section Calls

variable {ι : Type*} (t : ι)

/-- Record a connection accepted. -/
def Event.incConnections : Event ι := .add t .connections

/-- Record a connection closed. -/
def Event.decConnections : Event ι := .lower t .connections

/-- Record a room coming into existence. -/
def Event.roomOpened : Event ι := .add t .rooms

/-- Record a room removed. -/
def Event.roomClosed : Event ι := .lower t .rooms

end Calls

variable {ι : Type*}

/-- Counts that no call has changed yet, and gauges that were never set. -/
def start (counts : Gauge → UInt64) : State ι := ⟨counts, fun _ => none, fun _ => .idle⟩

namespace State

/-- An atomic takes a new value. -/
def store (s : State ι) (g : Gauge) (v : UInt64) : State ι :=
  { s with counts := Function.update s.counts g v }

/-- An exported gauge is overwritten. -/
def set (s : State ι) (g : Gauge) (v : UInt64) : State ι :=
  { s with gauge := Function.update s.gauge g (some v) }

@[simp] theorem store_gauge (s : State ι) (g : Gauge) (v : UInt64) :
    (s.store g v).gauge = s.gauge := rfl

@[simp] theorem store_counts_self (s : State ι) (g : Gauge) (v : UInt64) :
    (s.store g v).counts g = v := Function.update_self ..

theorem store_counts_of_ne (s : State ι) {g g' : Gauge} (h : g ≠ g') (v : UInt64) :
    (s.store g' v).counts g = s.counts g := Function.update_of_ne h ..

@[simp] theorem set_counts (s : State ι) (g : Gauge) (v : UInt64) :
    (s.set g v).counts = s.counts := rfl

@[simp] theorem set_gauge_self (s : State ι) (g : Gauge) (v : UInt64) :
    (s.set g v).gauge g = some v := Function.update_self ..

theorem set_gauge_of_ne (s : State ι) {g g' : Gauge} (h : g ≠ g') (v : UInt64) :
    (s.set g' v).gauge g = s.gauge g := Function.update_of_ne h ..

variable [DecidableEq ι]

/-- A thread moves to another point of its call. -/
def goto (s : State ι) (t : ι) (pc : Pc) : State ι := { s with pc := Function.update s.pc t pc }

@[simp] theorem goto_gauge (s : State ι) (t : ι) (pc : Pc) : (s.goto t pc).gauge = s.gauge := rfl

@[simp] theorem goto_pc_self (s : State ι) (t : ι) (pc : Pc) : (s.goto t pc).pc t = pc :=
  Function.update_self ..

theorem goto_pc_of_ne (s : State ι) {t u : ι} (h : u ≠ t) (pc : Pc) :
    (s.goto t pc).pc u = s.pc u := Function.update_of_ne h ..

end State

variable [DecidableEq ι]

/-- A call that has its value sets the gauge next, or returns at once without the feature. -/
def report (metrics : Bool) (s : State ι) (t : ι) (g : Gauge) (v : UInt64) :
    State ι × List (Obs ι) :=
  if metrics then (s.goto t (.setting g v), [])
  else (s.goto t .idle, [.returned t g (g.result v)])

/-- One step. `fetch_add` wraps before the addition to its result can overflow. -/
def step (overflowChecks metrics : Bool) (s : State ι) : Event ι → Option (State ι × List (Obs ι))
  | .add t g => if s.pc t = .idle then some (s.goto t (.adding g), []) else none
  | .lower t g => if s.pc t = .idle then some (s.goto t (.lowering g), []) else none
  | .advance t =>
    match s.pc t with
    | .idle => none
    | .adding g =>
      let added := s.store g (s.counts g + 1)
      match (Outcome.addU64 overflowChecks (s.counts g) 1 : Outcome WsError UInt64) with
      | .ok v =>
        let reported := report metrics added t g v
        some (reported.1, .added t g :: reported.2)
      | .error _ => some (added.goto t .idle, [.added t g, .panicked t g])
    | .lowering g =>
      match saturatingDec (s.counts g) with
      | some v => some ((s.store g v).goto t (.loading g), [.lowered t g false])
      | none => some (s.goto t (.loading g), [.lowered t g true])
    | .loading g =>
      let reported := report metrics s t g (s.counts g)
      some (reported.1, .loaded t g :: reported.2)
    | .setting g v =>
      some ((s.set g v).goto t .idle, [.set t g v, .returned t g (g.result v)])

/-- The recorder's gauges and its threads as a machine. -/
def machine (ι : Type*) [DecidableEq ι] (overflowChecks metrics : Bool) :
    Machine (State ι) (Event ι) (Obs ι) :=
  ⟨step overflowChecks metrics⟩

section Uninterrupted

/-- The count of a gauge in a snapshot. -/
def Gauge.read : Gauge → Stats → ℕ
  | .connections, stats => stats.connections
  | .rooms, stats => stats.rooms

/-- The recorder's method that counts one more. -/
def Gauge.opened : Gauge → StatsRecorder → StatsRecorder
  | .connections, stats => stats.incConnections.2
  | .rooms, stats => stats.roomOpened

/-- The recorder's method that counts one less. -/
def Gauge.closed : Gauge → StatsRecorder → StatsRecorder
  | .connections, stats => stats.decConnections.2
  | .rooms, stats => stats.roomClosed

/-- A method changes the count of its own gauge. -/
theorem read_opened (g g' : Gauge) (stats : StatsRecorder) :
    g'.read (g.opened stats).snapshot =
      if g' = g then g'.read stats.snapshot + 1 else g'.read stats.snapshot := by
  cases g <;> cases g' <;> rfl

theorem read_closed (g g' : Gauge) (stats : StatsRecorder) :
    g'.read (g.closed stats).snapshot =
      if g' = g then g'.read stats.snapshot - 1 else g'.read stats.snapshot := by
  cases g <;> cases g' <;> rfl

/-- The atomics hold the counts of a recorder. -/
def State.Shows (s : State ι) (stats : StatsRecorder) : Prop :=
  ∀ g, (s.counts g).toNat = g.read stats.snapshot

omit [DecidableEq ι] in
/-- An atomic that changes as its method says. -/
theorem State.Shows.store {s : State ι} {stats stats' : StatsRecorder} (h : s.Shows stats)
    {g : Gauge} {v : UInt64} (hvalue : v.toNat = g.read stats'.snapshot)
    (hothers : ∀ g', g' ≠ g → g'.read stats'.snapshot = g'.read stats.snapshot) :
    (s.store g v).Shows stats' := by
  intro g'
  by_cases hg : g' = g
  · rw [hg, State.store_counts_self, hvalue]
  · rw [State.store_counts_of_ne s hg, h g', hothers g' hg]

/-- A call that counts one more, run by one thread alone, does what the recorder's method says. -/
theorem run_add (overflowChecks metrics : Bool) {s : State ι} {stats : StatsRecorder} {t : ι}
    (hidle : s.pc t = .idle) (hshows : s.Shows stats) (g : Gauge)
    (hfits : (s.counts g).toNat + 1 < 2 ^ 64) (tr : List (Obs ι)) :
    ∃ k s' out, (machine ι overflowChecks metrics).run (.add t g :: List.replicate k (.advance t))
        (s, tr) = some (s', tr ++ out) ∧
      s'.pc = s.pc ∧ s'.Shows (g.opened stats) ∧ .returned t g (g.result (s'.counts g)) ∈ out := by
  have hback : Function.update s.pc t .idle = s.pc := by rw [← hidle, Function.update_eq_self]
  obtain ⟨hsum, hvalue⟩ :=
    Outcome.addU64_of_lt (ε := WsError) (a := s.counts g) (b := 1) overflowChecks hfits
  have hafter : (s.store g (s.counts g + 1)).Shows (g.opened stats) := by
    refine hshows.store ?_ fun g' hg => ?_
    · rw [hvalue, hshows g, read_opened, if_pos rfl]
      rfl
    · rw [read_opened, if_neg hg]
  cases metrics
  · refine ⟨1, s.store g (s.counts g + 1), [.added t g, .returned t g (g.result (s.counts g + 1))],
      ?_, rfl, hafter, by simp⟩
    simp [Machine.run, machine, step, State.goto, State.store, report, hidle, hback, hsum]
  · refine ⟨2, (s.store g (s.counts g + 1)).set g (s.counts g + 1), [.added t g,
      .set t g (s.counts g + 1), .returned t g (g.result (s.counts g + 1))], ?_, rfl, hafter, by simp⟩
    simp [Machine.run, machine, step, State.goto, State.store, State.set, report, hidle, hback, hsum]

/-- So does a call that counts one less. -/
theorem run_lower (overflowChecks metrics : Bool) {s : State ι} {stats : StatsRecorder} {t : ι}
    (hidle : s.pc t = .idle) (hshows : s.Shows stats) (g : Gauge) (tr : List (Obs ι)) :
    ∃ k s' out, (machine ι overflowChecks metrics).run
        (.lower t g :: List.replicate k (.advance t)) (s, tr) = some (s', tr ++ out) ∧
      s'.pc = s.pc ∧ s'.Shows (g.closed stats) ∧ .returned t g (g.result (s'.counts g)) ∈ out := by
  have hback : Function.update s.pc t .idle = s.pc := by rw [← hidle, Function.update_eq_self]
  have hclosed : ∀ v : UInt64, v.toNat = (s.counts g).toNat - 1 →
      (s.store g v).Shows (g.closed stats) := by
    intro v hv
    refine hshows.store ?_ fun g' hg => ?_
    · rw [hv, hshows g, read_closed, if_pos rfl]
    · rw [read_closed, if_neg hg]
  by_cases hzero : s.counts g = 0
  · have hkept := hclosed (s.counts g) (by rw [hzero]; rfl)
    rw [State.store, Function.update_eq_self] at hkept
    cases metrics
    · refine ⟨2, s, [.lowered t g true, .loaded t g, .returned t g (g.result (s.counts g))], ?_, rfl,
        hkept, by simp⟩
      simp [Machine.run, machine, step, State.goto, report, hidle, hback, saturatingDec, hzero]
    · refine ⟨3, s.set g (s.counts g), [.lowered t g true, .loaded t g, .set t g (s.counts g),
        .returned t g (g.result (s.counts g))], ?_, rfl, hkept, by simp⟩
      simp [Machine.run, machine, step, State.goto, State.set, report, hidle, hback, saturatingDec,
        hzero]
  · have hlowered := hclosed (s.counts g - 1) (by have hprev := toNat_sub_one hzero; omega)
    cases metrics
    · refine ⟨2, s.store g (s.counts g - 1), [.lowered t g false, .loaded t g,
        .returned t g (g.result (s.counts g - 1))], ?_, rfl, hlowered, by simp⟩
      simp [Machine.run, machine, step, State.goto, State.store, report, hidle, hback, saturatingDec,
        hzero]
    · refine ⟨3, (s.store g (s.counts g - 1)).set g (s.counts g - 1), [.lowered t g false,
        .loaded t g, .set t g (s.counts g - 1), .returned t g (g.result (s.counts g - 1))], ?_, rfl,
        hlowered, by simp⟩
      simp [Machine.run, machine, step, State.goto, State.store, State.set, report, hidle, hback,
        saturatingDec, hzero]

end Uninterrupted

/-- What a step can do. -/
inductive Moves (metrics : Bool) (s : State ι) : Event ι → State ι → List (Obs ι) → Prop
  | callAdd {t g} (h : s.pc t = .idle) : Moves metrics s (.add t g) (s.goto t (.adding g)) []
  | callLower {t g} (h : s.pc t = .idle) :
      Moves metrics s (.lower t g) (s.goto t (.lowering g)) []
  | add {t g s' out} (h : s.pc t = .adding g)
      (hreport : report metrics (s.store g (s.counts g + 1)) t g (s.counts g + 1) = (s', out)) :
      Moves metrics s (.advance t) s' (.added t g :: out)
  | overflow {t g} (h : s.pc t = .adding g) (hfull : 2 ^ 64 ≤ (s.counts g).toNat + 1) :
      Moves metrics s (.advance t) ((s.store g (s.counts g + 1)).goto t .idle)
        [.added t g, .panicked t g]
  | lower {t g} (h : s.pc t = .lowering g) (hpos : s.counts g ≠ 0) :
      Moves metrics s (.advance t) ((s.store g (s.counts g - 1)).goto t (.loading g))
        [.lowered t g false]
  | saturate {t g} (h : s.pc t = .lowering g) (hzero : s.counts g = 0) :
      Moves metrics s (.advance t) (s.goto t (.loading g)) [.lowered t g true]
  | load {t g s' out} (h : s.pc t = .loading g) (hreport : report metrics s t g (s.counts g) = (s', out)) :
      Moves metrics s (.advance t) s' (.loaded t g :: out)
  | set {t g v} (h : s.pc t = .setting g v) :
      Moves metrics s (.advance t) ((s.set g v).goto t .idle)
        [.set t g v, .returned t g (g.result v)]

/-- Every step is one of those. -/
theorem moves_of_step {overflowChecks metrics : Bool} {s s' : State ι} {e : Event ι}
    {out : List (Obs ι)} (h : step overflowChecks metrics s e = some (s', out)) :
    Moves metrics s e s' out := by
  cases e with
  | add t g =>
    simp only [step, Option.ite_none_right_eq_some, Option.some.injEq, Prod.mk.injEq] at h
    obtain ⟨hidle, rfl, rfl⟩ := h
    exact .callAdd hidle
  | lower t g =>
    simp only [step, Option.ite_none_right_eq_some, Option.some.injEq, Prod.mk.injEq] at h
    obtain ⟨hidle, rfl, rfl⟩ := h
    exact .callLower hidle
  | advance t =>
    cases hpc : s.pc t with
    | idle => simp [step, hpc] at h
    | adding g =>
      simp only [step, hpc] at h
      split at h
      · next v hv =>
        obtain rfl : v = s.counts g + 1 := Outcome.eq_of_addU64_eq_ok hv
        cases h
        exact .add hpc rfl
      · next fault hfault =>
        cases h
        exact .overflow hpc (Outcome.le_of_addU64_eq_error hfault)
    | lowering g =>
      by_cases hzero : s.counts g = 0
      · simp only [step, hpc, saturatingDec, if_pos hzero] at h
        cases h
        exact .saturate hpc hzero
      · simp only [step, hpc, saturatingDec, if_neg hzero] at h
        cases h
        exact .lower hpc hzero
    | loading g =>
      simp only [step, hpc, Option.some.injEq, Prod.mk.injEq] at h
      obtain ⟨rfl, rfl⟩ := h
      exact .load hpc rfl
    | setting g v =>
      simp only [step, hpc, Option.some.injEq, Prod.mk.injEq] at h
      obtain ⟨rfl, rfl⟩ := h
      exact .set hpc

/-- A call that has its value is about to set it or has returned it. -/
theorem report_cases {metrics : Bool} {s s' : State ι} {t : ι} {g : Gauge} {v : UInt64}
    {out : List (Obs ι)} (h : report metrics s t g v = (s', out)) :
    s' = s.goto t (.setting g v) ∧ out = [] ∨
      s' = s.goto t .idle ∧ out = [.returned t g (g.result v)] := by
  cases metrics
  · cases h
    exact .inr ⟨rfl, rfl⟩
  · cases h
    exact .inl ⟨rfl, rfl⟩

section Marks

variable {ι : Type*}

/-- What an observation means for one of the gauges. -/
def marksOf (g : Gauge) : Obs ι → List (Mark ι UInt64)
  | .added t g' => if g' = g then [.add t 1, .read t] else []
  | .lowered t g' saturated => if g' = g then [.add t (if saturated then 0 else -1)] else []
  | .loaded t g' => if g' = g then [.read t] else []
  | .set t g' _ => if g' = g then [.publish t] else []
  | .returned t g' result => if g' = g then (result.map fun v => Mark.answer t v).toList else []
  | .panicked _ _ => []

/-- The marks of a trace on one of the gauges. -/
def marks (g : Gauge) (tr : List (Obs ι)) : List (Mark ι UInt64) := tr.flatMap (marksOf g)

theorem marks_append (g : Gauge) (tr out : List (Obs ι)) :
    marks g (tr ++ out) = marks g tr ++ marks g out := List.flatMap_append

end Marks

/-- The ledger of a gauge after a trace. -/
def ledger (n : UInt64) (g : Gauge) (tr : List (Obs ι)) : Ledger ι UInt64 :=
  (Ledger.start n).replay (marks g tr)

theorem ledger_append (n : UInt64) (g : Gauge) (tr out : List (Obs ι)) :
    ledger n g (tr ++ out) = (ledger n g tr).replay (marks g out) := by
  rw [ledger, marks_append, Ledger.replay_append, ledger]

theorem coherent_ledger (n : UInt64) (g : Gauge) (tr : List (Obs ι)) : (ledger n g tr).Coherent :=
  (Ledger.coherent_start n).replay _

/-- The ledger of a gauge agrees with its atomic, with the values that threads are about to set,
and with the value that was set last; and it explains what was returned. -/
structure Tracks (n : UInt64) (g : Gauge) (s : State ι) (tr : List (Obs ι)) : Prop where
  count : (ledger n g tr).count = s.counts g
  found : ∀ t v, s.pc t = .setting g v → (ledger n g tr).Found t v
  published : ∀ v, s.gauge g = some v → (ledger n g tr).published.value = v
  explained : (Ledger.start n).Explained (marks g tr)

/-- A new recorder is tracked. -/
theorem tracks_start (counts : Gauge → UInt64) (g : Gauge) :
    Tracks (counts g) g (start counts : State ι) [] where
  count := rfl
  found _ _ h := by cases h
  published _ h := by cases h
  explained := trivial

/-- A step shows something about this gauge: what is to be checked of its marks. -/
theorem Tracks.append {n : UInt64} {g : Gauge} {s s' : State ι} {tr out : List (Obs ι)}
    (h : Tracks n g s tr) (hcount : ((ledger n g tr).replay (marks g out)).count = s'.counts g)
    (hfound : ∀ t v, s'.pc t = .setting g v → ((ledger n g tr).replay (marks g out)).Found t v)
    (hpublished : ∀ v, s'.gauge g = some v →
      ((ledger n g tr).replay (marks g out)).published.value = v)
    (hexplained : (ledger n g tr).Explained (marks g out)) : Tracks n g s' (tr ++ out) := by
  refine ⟨?_, ?_, ?_, ?_⟩
  · rw [ledger_append]
    exact hcount
  · rw [ledger_append]
    exact hfound
  · rw [ledger_append]
    exact hpublished
  · rw [marks_append]
    exact Ledger.holds_append.2 ⟨h.explained, hexplained⟩

/-- A step without marks on this gauge leaves its atomic and its value alone. -/
theorem Tracks.append_of_marks_eq_nil {n : UInt64} {g : Gauge} {s s' : State ι}
    {tr out : List (Obs ι)} (h : Tracks n g s tr) (hmarks : marks g out = [])
    (hcounts : s'.counts g = s.counts g) (hgauge : s'.gauge g = s.gauge g)
    (hpc : ∀ t v, s'.pc t = .setting g v → s.pc t = .setting g v) : Tracks n g s' (tr ++ out) := by
  refine h.append ?_ ?_ ?_ ?_ <;> rw [hmarks]
  · exact h.count.trans hcounts.symm
  · exact fun t v ht => h.found t v (hpc t v ht)
  · exact fun v hv => h.published v (hgauge ▸ hv)
  · trivial

/-- What threads about to set a gauge have found survives the marks of a thread that is not. -/
theorem Tracks.found_replay {n : UInt64} {g : Gauge} {s : State ι} {tr : List (Obs ι)}
    (h : Tracks n g s tr) {t : ι} (hpc : ∀ v, s.pc t ≠ .setting g v) {new : List (Mark ι UInt64)}
    (hnew : ∀ mark ∈ new, mark.thread = t) (u : ι) (v : UInt64) (hu : s.pc u = .setting g v) :
    ((ledger n g tr).replay new).Found u v := by
  have hne : u ≠ t := fun heq => hpc v (heq ▸ hu)
  exact (h.found u v hu).replay fun mark hmark hsame => hne (hsame.symm.trans (hnew mark hmark))

/-- A thread that is not about to set a gauge adds to an atomic and takes the value that it
leaves. -/
theorem Tracks.added {n : UInt64} {g : Gauge} {s : State ι} {tr : List (Obs ι)}
    (h : Tracks n g s tr) {t : ι} (hpc : ∀ v, s.pc t ≠ .setting g v) (g' : Gauge) :
    Tracks n g (s.store g' (s.counts g' + 1)) (tr ++ [.added t g']) ∧
      (g' = g → (ledger n g (tr ++ [.added t g'])).Found t (s.counts g' + 1)) := by
  by_cases hg : g' = g
  · subst hg
    have hmarks : marks g' [Obs.added t g'] = [.add t 1, .read t] := by simp [marks, marksOf]
    have hfound := ((coherent_ledger n g' tr).record (.add t 1)).found_read t
    refine ⟨h.append ?_ ?_ ?_ ?_, fun _ => ?_⟩
    · rw [hmarks, State.store_counts_self, ← h.count]
      rfl
    · rw [hmarks]
      exact h.found_replay hpc (by simp [Mark.thread])
    · rw [hmarks]
      exact h.published
    · rw [hmarks]
      exact ⟨trivial, trivial, trivial⟩
    · rw [ledger_append, hmarks, ← h.count]
      exact hfound
  · have hmarks : marks g [Obs.added t g'] = [] := by simp [marks, marksOf, hg]
    refine ⟨h.append_of_marks_eq_nil hmarks ?_ rfl fun u v hu => hu, fun heq => absurd heq hg⟩
    exact State.store_counts_of_ne s (Ne.symm hg) _

/-- A thread that is not about to set a gauge lowers an atomic, or finds it at zero. -/
theorem Tracks.lowered {n : UInt64} {g : Gauge} {s : State ι} {tr : List (Obs ι)}
    (h : Tracks n g s tr) {t : ι} (hpc : ∀ v, s.pc t ≠ .setting g v) (g' : Gauge)
    (saturated : Bool) : Tracks n g (s.store g' (s.counts g' + if saturated then 0 else -1))
      (tr ++ [.lowered t g' saturated]) := by
  by_cases hg : g' = g
  · subst hg
    have hmarks : marks g' [Obs.lowered t g' saturated] =
        [.add t (if saturated then 0 else -1)] := by simp [marks, marksOf]
    refine h.append ?_ ?_ ?_ ?_ <;> rw [hmarks]
    · rw [State.store_counts_self, ← h.count]
      rfl
    · exact h.found_replay hpc (by simp [Mark.thread])
    · exact h.published
    · exact ⟨trivial, trivial⟩
  · have hmarks : marks g [Obs.lowered t g' saturated] = [] := by simp [marks, marksOf, hg]
    refine h.append_of_marks_eq_nil hmarks ?_ rfl fun u v hu => hu
    exact State.store_counts_of_ne s (Ne.symm hg) _

/-- A thread that is not about to set a gauge loads an atomic. -/
theorem Tracks.loaded {n : UInt64} {g : Gauge} {s : State ι} {tr : List (Obs ι)}
    (h : Tracks n g s tr) {t : ι} (hpc : ∀ v, s.pc t ≠ .setting g v) (g' : Gauge) :
    Tracks n g s (tr ++ [.loaded t g']) ∧
      (g' = g → (ledger n g (tr ++ [.loaded t g'])).Found t (s.counts g')) := by
  by_cases hg : g' = g
  · subst hg
    have hmarks : marks g' [Obs.loaded t g'] = [.read t] := by simp [marks, marksOf]
    refine ⟨h.append ?_ ?_ ?_ ?_, fun _ => ?_⟩
    · rw [hmarks]
      exact h.count
    · rw [hmarks]
      exact h.found_replay hpc (by simp [Mark.thread])
    · rw [hmarks]
      exact h.published
    · rw [hmarks]
      exact ⟨trivial, trivial⟩
    · rw [ledger_append, hmarks, ← h.count]
      exact (coherent_ledger n g' tr).found_read t
  · have hmarks : marks g [Obs.loaded t g'] = [] := by simp [marks, marksOf, hg]
    exact ⟨h.append_of_marks_eq_nil hmarks rfl rfl fun u v hu => hu, fun heq => absurd heq hg⟩

omit [DecidableEq ι] in
/-- A return is an answer about the connections, or no mark. -/
theorem marks_returned_cases (g g' : Gauge) (t : ι) (v : UInt64) :
    marks g [Obs.returned t g' (g'.result v)] = [] ∨
      g' = g ∧ marks g [Obs.returned t g' (g'.result v)] = [.answer t v] := by
  by_cases hg : g' = g
  · cases g' with
    | connections => exact .inr ⟨hg, by simp [marks, marksOf, hg, Gauge.result]⟩
    | rooms => exact .inl (by simp [marks, marksOf, Gauge.result])
  · exact .inl (by simp [marks, marksOf, hg])

/-- A move to a point that does not set a gauge, or sets it to what was found. -/
theorem Tracks.goto {n : UInt64} {g : Gauge} {s : State ι} {tr : List (Obs ι)}
    (h : Tracks n g s tr) (t : ι) (pc : Pc)
    (hfound : ∀ v, pc = .setting g v → (ledger n g tr).Found t v) :
    Tracks n g (s.goto t pc) tr where
  count := h.count
  found u v hu := by
    by_cases hut : u = t
    · rw [hut, State.goto_pc_self] at hu
      rw [hut]
      exact hfound v hu
    · rw [State.goto_pc_of_ne s hut] at hu
      exact h.found u v hu
  published := h.published
  explained := h.explained

/-- A call returns what it found, and is over. -/
theorem Tracks.returned {n : UInt64} {g : Gauge} {s : State ι} {tr : List (Obs ι)} {t : ι}
    {g' : Gauge} {v : UInt64} (h : Tracks n g s tr)
    (hfound : g' = g → (ledger n g tr).Found t v) :
    Tracks n g (s.goto t .idle) (tr ++ [.returned t g' (g'.result v)]) := by
  have hidle := h.goto t .idle (by simp)
  obtain hmarks | ⟨hg, hmarks⟩ := marks_returned_cases g g' t v
  · exact hidle.append_of_marks_eq_nil hmarks rfl rfl fun u w hu => hu
  · refine hidle.append ?_ ?_ ?_ ?_ <;> rw [hmarks]
    · exact hidle.count
    · exact fun u w hu => ⟨(hidle.found u w hu).taken, (hidle.found u w hu).explained⟩
    · exact hidle.published
    · exact ⟨(hfound hg).explained, trivial⟩

/-- A call that has its value keeps the ledger right, whether it sets the gauge or not. -/
theorem Tracks.reported {metrics : Bool} {n : UInt64} {g : Gauge} {s s' : State ι}
    {tr out : List (Obs ι)} {t : ι} {g' : Gauge} {v : UInt64} (h : Tracks n g s tr)
    (hfound : g' = g → (ledger n g tr).Found t v) (hreport : report metrics s t g' v = (s', out)) :
    Tracks n g s' (tr ++ out) := by
  obtain ⟨rfl, rfl⟩ | ⟨rfl, rfl⟩ := report_cases hreport
  · rw [List.append_nil]
    refine h.goto t _ fun w hw => ?_
    obtain ⟨hg, rfl⟩ : g' = g ∧ v = w := by simpa using hw
    exact hfound hg
  · exact h.returned hfound

/-- A thread sets a gauge to what it found. -/
theorem Tracks.set {n : UInt64} {g : Gauge} {s : State ι} {tr : List (Obs ι)} {t : ι} {g' : Gauge}
    {v : UInt64} (h : Tracks n g s tr) (hpc : s.pc t = .setting g' v) :
    Tracks n g (s.set g' v) (tr ++ [.set t g' v]) ∧
      (g' = g → (ledger n g (tr ++ [.set t g' v])).Found t v) := by
  by_cases hg : g' = g
  · subst hg
    have hmarks : marks g' [Obs.set t g' v] = [.publish t] := by simp [marks, marksOf]
    have hfound := h.found t v hpc
    refine ⟨h.append ?_ ?_ ?_ ?_, fun _ => ?_⟩
    · rw [hmarks]
      exact h.count
    · intro u w hu
      rw [hmarks]
      exact ⟨(h.found u w hu).taken, (h.found u w hu).explained⟩
    · intro w hw
      rw [State.set_gauge_self, Option.some.injEq] at hw
      rw [hmarks, ← hw]
      exact hfound.taken.symm
    · rw [hmarks]
      exact ⟨trivial, trivial⟩
    · rw [ledger_append, hmarks]
      exact ⟨hfound.taken, hfound.explained⟩
  · have hmarks : marks g [Obs.set t g' v] = [] := by simp [marks, marksOf, hg]
    refine ⟨h.append_of_marks_eq_nil hmarks rfl ?_ fun u w hu => hu, fun heq => absurd heq hg⟩
    exact State.set_gauge_of_ne s (Ne.symm hg) v

/-- Every step keeps the ledger of a gauge. -/
theorem Moves.tracks {metrics : Bool} {n : UInt64} {g : Gauge} {s s' : State ι} {e : Event ι}
    {tr out : List (Obs ι)} (h : Moves metrics s e s' out) (ht : Tracks n g s tr) :
    Tracks n g s' (tr ++ out) := by
  cases h with
  | @callAdd t g' hidle | @callLower t g' hidle =>
    rw [List.append_nil]
    exact ht.goto t _ (by simp)
  | @add t g' _ out hpc hreport =>
    obtain ⟨hadded, hfound⟩ := ht.added (t := t) (by simp [hpc]) g'
    rw [List.append_cons]
    exact hadded.reported hfound hreport
  | @overflow t g' hpc hfull =>
    obtain ⟨hadded, -⟩ := ht.added (t := t) (by simp [hpc]) g'
    rw [List.append_cons]
    exact (hadded.goto t .idle (by simp)).append_of_marks_eq_nil rfl rfl rfl fun u v hu => hu
  | @lower t g' hpc hpos =>
    have hlowered := ht.lowered (t := t) (by simp [hpc]) g' false
    have hsub : s.counts g' - 1 = s.counts g' + -1 := UInt64.sub_eq_add_neg _ _
    rw [hsub]
    exact hlowered.goto t _ (by simp)
  | @saturate t g' hpc hzero =>
    have hlowered := ht.lowered (t := t) (by simp [hpc]) g' true
    have hkept : s.store g' (s.counts g' + 0) = s := by
      rw [UInt64.add_zero, State.store, Function.update_eq_self]
    rw [if_pos rfl, hkept] at hlowered
    exact hlowered.goto t _ (by simp)
  | @load t g' _ out hpc hreport =>
    obtain ⟨hloaded, hfound⟩ := ht.loaded (t := t) (by simp [hpc]) g'
    rw [List.append_cons]
    exact hloaded.reported hfound hreport
  | @set t g' v hpc =>
    obtain ⟨hset, hfound⟩ := ht.set hpc
    rw [List.append_cons]
    exact hset.returned hfound

/-- Every run keeps the ledgers. -/
theorem tracks_of_run {overflowChecks metrics : Bool} {n : Gauge → UInt64} {es : List (Event ι)}
    {s : State ι} {tr : List (Obs ι)}
    (hrun : (machine ι overflowChecks metrics).run es (start n, []) = some (s, tr)) (g : Gauge) :
    Tracks (n g) g s tr :=
  Machine.run_induct_all (P := Tracks (n g) g)
    (fun _ _ _ _ _ ht he => (moves_of_step he).tracks ht) hrun (tracks_start n g)

/-- A call on a gauge has returned only after it has set it. -/
def Shown (g : Gauge) (s : State ι) (tr : List (Obs ι)) : Prop :=
  ∀ t result, .returned t g result ∈ tr → (s.gauge g).isSome

/-- Every step with the metrics feature sets a gauge before it returns. -/
theorem Moves.shown {g : Gauge} {s s' : State ι} {e : Event ι} {tr out : List (Obs ι)}
    (h : Moves true s e s' out) (hshown : Shown g s tr) : Shown g s' (tr ++ out) := by
  intro u result hmem
  have hbefore : .returned u g result ∈ tr → (s.gauge g).isSome := hshown u result
  cases h with
  | @add t g' _ out hpc hreport | @load t g' _ out hpc hreport =>
    cases hreport
    simpa using hbefore (by simpa using hmem)
  | @set t g' v hpc =>
    by_cases hg : g = g'
    · subst hg
      rw [State.goto_gauge, State.set_gauge_self]
      rfl
    · rw [State.goto_gauge, State.set_gauge_of_ne s hg]
      exact hbefore (by simpa [hg] using hmem)
  | _ => simpa using hbefore (by simpa using hmem)

/-- So does every run. -/
theorem shown_of_run {overflowChecks : Bool} {n : Gauge → UInt64} {es : List (Event ι)}
    {s : State ι} {tr : List (Obs ι)}
    (hrun : (machine ι overflowChecks true).run es (start n, []) = some (s, tr)) (g : Gauge) :
    Shown g s tr :=
  Machine.run_induct_all (P := Shown g)
    (fun _ _ _ _ _ hshown he => (moves_of_step he).shown hshown) hrun
    (fun _ _ hmem => by cases hmem)

/-- A thread has changed or read the atomic of a gauge, and will still set the gauge. -/
def Pc.Owes (g : Gauge) : Pc → Prop
  | .loading g' => g' = g
  | .setting g' _ => g' = g
  | _ => False

/-- Nothing was added for good since the reading that a gauge was set to, unless some thread will
still set it. -/
def Due (n : UInt64) (g : Gauge) (s : State ι) (tr : List (Obs ι)) : Prop :=
  (s.gauge g).isSome → (ledger n g tr).published.since = 0 ∨ ∃ t, (s.pc t).Owes g

/-- What the next step of a thread must find: no addition overflows, and when a thread sets a
gauge, what was added since its reading cancels out. -/
def FreshAt (n : Gauge → UInt64) (s : State ι) (tr : List (Obs ι)) (t : ι) : Pc → Prop
  | .adding g => (s.counts g).toNat + 1 < 2 ^ 64
  | .setting g _ => ((ledger (n g) g tr).taken t).since = 0
  | _ => True

instance (n : Gauge → UInt64) (s : State ι) (tr : List (Obs ι)) (t : ι) :
    DecidablePred (FreshAt n s tr t)
  | .adding g => inferInstanceAs (Decidable ((s.counts g).toNat + 1 < 2 ^ 64))
  | .setting g _ => inferInstanceAs (Decidable (((ledger (n g) g tr).taken t).since = 0))
  | .idle => isTrue trivial
  | .lowering _ => isTrue trivial
  | .loading _ => isTrue trivial

/-- Every step is taken where it is fresh. -/
def Fresh (n : Gauge → UInt64) (s : State ι) (tr : List (Obs ι)) : Event ι → Prop
  | .advance t => FreshAt n s tr t (s.pc t)
  | _ => True

instance (n : Gauge → UInt64) (s : State ι) (tr : List (Obs ι)) : DecidablePred (Fresh n s tr)
  | .advance t => inferInstanceAs (Decidable (FreshAt n s tr t (s.pc t)))
  | .add _ _ => isTrue trivial
  | .lower _ _ => isTrue trivial

/-- A thread that still owes a gauge goes on to do so when another one moves. -/
theorem Pc.Owes.goto {g : Gauge} {s : State ι} {t u : ι} (hu : (s.pc u).Owes g)
    (ht : ¬ (s.pc t).Owes g) (pc : Pc) : ((s.goto t pc).pc u).Owes g := by
  have hne : u ≠ t := fun heq => ht (heq ▸ hu)
  rw [State.goto_pc_of_ne s hne]
  exact hu

/-- A thread that moves to where it owes the gauge. -/
theorem due_of_owes (n : UInt64) {g : Gauge} (s : State ι) (t : ι) {pc : Pc} (h : pc.Owes g)
    (tr : List (Obs ι)) : Due n g (s.goto t pc) tr := by
  intro _
  refine .inr ⟨t, ?_⟩
  rw [State.goto_pc_self]
  exact h

/-- A move of a thread that does not owe the gauge, without marks on it. -/
theorem Due.goto {n : UInt64} {g : Gauge} {s s' : State ι} {tr out : List (Obs ι)}
    (h : Due n g s tr) {t : ι} (ht : ¬ (s.pc t).Owes g) (hmarks : marks g out = [])
    (hgauge : s'.gauge g = s.gauge g) (hpc : s'.pc = s.pc) (pc : Pc) :
    Due n g (s'.goto t pc) (tr ++ out) := by
  intro hsome
  rw [State.goto_gauge, hgauge] at hsome
  obtain hsince | ⟨u, hu⟩ := h hsome
  · left
    rw [ledger_append, hmarks]
    exact hsince
  · right
    rw [← hpc] at hu ht
    exact ⟨u, hu.goto ht pc⟩

/-- Every fresh step leaves a gauge right or owed. -/
theorem Moves.due {n : Gauge → UInt64} {g : Gauge} {s s' : State ι} {e : Event ι}
    {tr out : List (Obs ι)} (h : Moves true s e s' out) (hfresh : Fresh n s tr e)
    (hdue : Due (n g) g s tr) : Due (n g) g s' (tr ++ out) := by
  cases h with
  | @callAdd t g' hidle | @callLower t g' hidle =>
    exact hdue.goto (by simp [hidle, Pc.Owes]) rfl rfl rfl _
  | @add t g' _ out hpc hreport =>
    cases hreport
    by_cases hg : g' = g
    · exact due_of_owes (n g) _ t (show (Pc.setting g' _).Owes g from hg) _
    · exact hdue.goto (by simp [hpc, Pc.Owes]) (by simp [marks, marksOf, hg]) rfl rfl _
  | @overflow t g' hpc hfull =>
    simp only [Fresh, FreshAt, hpc] at hfresh
    omega
  | @lower t g' hpc hpos | @saturate t g' hpc hzero =>
    by_cases hg : g' = g
    · exact due_of_owes (n g) _ t (show (Pc.loading g').Owes g from hg) _
    · exact hdue.goto (by simp [hpc, Pc.Owes]) (by simp [marks, marksOf, hg]) rfl rfl _
  | @load t g' _ out hpc hreport =>
    cases hreport
    by_cases hg : g' = g
    · exact due_of_owes (n g) _ t (show (Pc.setting g' _).Owes g from hg) _
    · exact hdue.goto (by simp [hpc, Pc.Owes, hg]) (by simp [marks, marksOf, hg]) rfl rfl _
  | @set t g' v hpc =>
    by_cases hg : g' = g
    · subst hg
      simp only [Fresh, FreshAt, hpc] at hfresh
      have hmarks : marks g' [Obs.set t g' v, .returned t g' (g'.result v)] =
          .publish t :: marks g' [.returned t g' (g'.result v)] := by simp [marks, marksOf]
      intro _
      left
      -- the return that follows does not change the ledger's pins
      obtain hreturned | ⟨-, hreturned⟩ := marks_returned_cases g' g' t v <;>
        rw [ledger_append, hmarks, hreturned] <;> exact hfresh
    · exact hdue.goto (by simp [hpc, Pc.Owes, hg]) (by simp [marks, marksOf, hg])
        (State.set_gauge_of_ne s (Ne.symm hg) v) rfl _

/-- A gauge on which a call has returned is set to the count exactly when what was added to the
atomic since the reading that was set last cancels out. So both gauges are right when no call is in
progress if no addition overflows and every call sets its gauge before anything is added for good
since its reading. -/
theorem gauge_eq_count_iff (overflowChecks : Bool) {n : Gauge → UInt64} {es : List (Event ι)}
    {s : State ι} {tr : List (Obs ι)}
    (hrun : (machine ι overflowChecks true).run es (start n, []) = some (s, tr))
    (hreturned : ∀ g, ∃ t result, .returned t g result ∈ tr) :
    (∀ g, s.gauge g = some (s.counts g) ↔ (ledger (n g) g tr).published.since = 0) ∧
    ((∀ t, s.pc t = .idle) → (machine ι overflowChecks true).Meets (Fresh n) es (start n, []) →
      ∀ g, s.gauge g = some (s.counts g)) := by
  have hiff : ∀ g, s.gauge g = some (s.counts g) ↔ (ledger (n g) g tr).published.since = 0 := by
    intro g
    have htracks := tracks_of_run hrun g
    obtain ⟨t, result, hmem⟩ := hreturned g
    obtain ⟨v, hv⟩ := Option.isSome_iff_exists.1 (shown_of_run hrun g t result hmem)
    rw [hv, Option.some.injEq, ← htracks.published v hv, ← htracks.count]
    exact (coherent_ledger (n g) g tr).published.value_eq_iff
  refine ⟨hiff, fun hidle hfresh g => (hiff g).2 ?_⟩
  have hdue : Due (n g) g s tr := Machine.run_induct (P := Due (n g) g)
    (fun _ _ _ _ _ hdue hfresh he => (moves_of_step he).due hfresh hdue) hrun hfresh
    (fun hsome => by cases hsome)
  have hsome : (s.gauge g).isSome := by
    obtain ⟨t, result, hmem⟩ := hreturned g
    exact shown_of_run hrun g t result hmem
  refine (hdue hsome).resolve_right ?_
  rintro ⟨t, howes⟩
  rw [hidle t] at howes
  exact howes

/-- Two connections and a room are counted; the second connection overtakes the first one if
`overtaken`. -/
def countThree (overtaken : Bool) : List (Event (Fin 2)) :=
  [.roomOpened 0, .advance 0, .advance 0, .incConnections 0, .advance 0, .incConnections 1] ++
    if overtaken then [.advance 1, .advance 1, .advance 0] else [.advance 0, .advance 1, .advance 1]

/-- Without overtaking both gauges end up right. -/
theorem gauge_eq_count_iff_inOrder : ∃ s tr,
    (machine (Fin 2) true true).run (countThree false) (start fun _ => 0, []) = some (s, tr) ∧
      ∀ g, s.gauge g = some (s.counts g) := by
  have hrun : (machine (Fin 2) true true).run (countThree false) (start fun _ => 0, []) =
      some (_, _) := rfl
  refine ⟨_, _, hrun, (gauge_eq_count_iff true hrun ?_).2 (by decide) (by decide)⟩
  intro g
  cases g
  · exact ⟨0, some 1, by decide⟩
  · exact ⟨0, none, by decide⟩

/-- Overtaken by the second connection, the first one leaves the gauge at one while the count is
two. -/
theorem overtaken_staysWrong : ∃ s tr,
    (machine (Fin 2) true true).run (countThree true) (start fun _ => 0, []) = some (s, tr) ∧
      (∀ t, s.pc t = .idle) ∧ (∀ g, ∃ t result, .returned t g result ∈ tr) ∧
      s.gauge .connections = some 1 ∧ s.counts .connections = 2 := by
  refine ⟨_, _, rfl, ?_, ?_, ?_, ?_⟩
  · decide
  · intro g
    cases g
    · exact ⟨0, some 1, by decide⟩
    · exact ⟨0, none, by decide⟩
  · rfl
  · rfl

end WsKit.Gauges
