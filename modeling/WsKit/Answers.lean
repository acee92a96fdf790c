import Mathlib.Data.List.Range
import WsKit.Gauges

/-!
# The counts that calls return

An increment returns the count that its own update leaves. A decrement lowers the count and loads
it again, so what it returns is the count after its own update exactly when the updates of others
between the two cancel out. Both counters are read as ledgers of the connection count.
-/

namespace WsKit

open Base

section Lowering

variable {τ : Type*} [DecidableEq τ]

/-- Every change lowers a positive count by one. -/
def Lowering (l : Ledger τ UInt64) (marks : List (Mark τ UInt64)) : Prop :=
  l.Holds (fun l => Mark.IfAdd fun _ amount => amount = -1 ∧ l.count ≠ 0) marks

/-- The counts right after each of these changes are the numbers from the final count on. -/
theorem Lowering.perm_range' {l : Ledger τ UInt64} {marks : List (Mark τ UInt64)}
    (h : Lowering l marks) :
    l.count.toNat = (l.replay marks).count.toNat + (l.counts marks).length ∧
      ((l.counts marks).map UInt64.toNat).Perm
        (List.range' (l.replay marks).count.toNat (l.counts marks).length) := by
  induction marks generalizing l with
  | nil => exact ⟨rfl, .nil⟩
  | cons mark marks ih =>
    obtain ⟨hcount, hperm⟩ := ih h.2
    cases mark with
    | add t amount =>
      obtain ⟨rfl, hpos⟩ := h.1
      have hnext : (l.record (.add t (-1))).count = l.count - 1 :=
        (UInt64.sub_eq_add_neg l.count 1).symm
      have hprev := ConnectionCounter.toNat_sub_one hpos
      rw [hnext] at hcount
      have hhead : l.count + -1 = l.count - 1 := hnext
      rw [Ledger.replay_cons, Ledger.counts_add, List.length_cons, List.map_cons,
        List.range'_1_concat, hhead, ← hcount, ← hprev]
      refine ⟨?_, (hperm.cons _).trans (List.perm_append_singleton _ _).symm⟩
      rw [hcount, Nat.add_assoc]
    | read t => exact ⟨hcount, hperm⟩
    | publish t => exact ⟨hcount, hperm⟩
    | answer t v => exact ⟨hcount, hperm⟩

/-- When changes lower a count to zero and all of them are answered, linearized answers are the
numbers below the first count, each once. -/
theorem Lowering.perm_range {n : UInt64} {marks : List (Mark τ UInt64)}
    (h : Lowering (.start n) marks) (halternating : (Ledger.start n).Alternating marks)
    (hlinearized : (Ledger.start n).Linearized marks)
    (hdone : ((Ledger.start n).replay marks).owing = ∅)
    (hzero : ((Ledger.start n).replay marks).count = 0) :
    ((Ledger.answers marks).map UInt64.toNat).Perm (List.range n.toNat) := by
  have hcounts := hlinearized.perm halternating
  rw [hdone] at hcounts
  have hanswers : (Ledger.counts (.start n) marks).Perm (Ledger.answers marks) := by
    simpa [Ledger.start] using hcounts
  obtain ⟨hcount, hperm⟩ := h.perm_range'
  rw [hzero, UInt64.toNat_zero, Nat.zero_add] at hcount
  rw [hzero, UInt64.toNat_zero, ← hcount, ← List.range_eq_range'] at hperm
  exact (hanswers.symm.map _).trans hperm

end Lowering

namespace ConnectionCounter

variable {ι : Type*}

/-- A counter with any count and no call in progress. -/
def startAt (count : UInt64) : State ι := ⟨count, fun _ => .idle⟩

/-- What an observation means for the count. An increment that panics has added already, as only
the addition to the result of its `fetch_add` can overflow. -/
def marksOf : Obs ι → List (Mark ι UInt64)
  | .incremented t (.ok v) => [.add t 1, .read t, .answer t v]
  | .incremented t (.error .panicked) => [.add t 1]
  | .incremented _ (.error (.failed _)) => []
  | .decrementing _ => []
  | .updated t saturated => [.add t (if saturated then 0 else -1)]
  | .decremented t v => [.read t, .answer t v]

/-- The marks of a trace. -/
def marks (tr : List (Obs ι)) : List (Mark ι UInt64) := tr.flatMap marksOf

theorem marks_append (tr out : List (Obs ι)) : marks (tr ++ out) = marks tr ++ marks out :=
  List.flatMap_append

variable [DecidableEq ι]

/-- The ledger of the count after a trace. -/
def ledger (n : UInt64) (tr : List (Obs ι)) : Ledger ι UInt64 := (Ledger.start n).replay (marks tr)

theorem ledger_append (n : UInt64) (tr out : List (Obs ι)) :
    ledger n (tr ++ out) = (ledger n tr).replay (marks out) := by
  rw [ledger, marks_append, Ledger.replay_append, ledger]

theorem coherent_ledger (n : UInt64) (tr : List (Obs ι)) : (ledger n tr).Coherent :=
  (Ledger.coherent_start n).replay _

/-- The ledger agrees with the atomic, and it explains what was returned. -/
structure Tracks (n : UInt64) (s : State ι) (tr : List (Obs ι)) : Prop where
  below : ∀ t, (s.pc t).Below
  count : (ledger n tr).count = s.inner
  explained : (Ledger.start n).Explained (marks tr)

/-- Every step keeps the ledger. -/
theorem Moves.tracks {n : UInt64} {s s' : State ι} {e : Event ι} {tr out : List (Obs ι)}
    (h : Moves s e s' out) (ht : Tracks n s tr) : Tracks n s' (tr ++ out) := by
  have hcount := ht.count
  refine ⟨h.below ht.below, ?_, ?_⟩
  · rw [ledger_append]
    cases h
    case add t hpc => exact congrArg (· + 1) hcount
    case overflow t hpc => exact congrArg (· + 1) hcount
    case release t hpc hpos =>
      exact (congrArg (· + -1) hcount).trans (UInt64.sub_eq_add_neg s.inner 1).symm
    case saturate t hpc hzero => exact (congrArg (· + 0) hcount).trans (UInt64.add_zero s.inner)
    all_goals exact hcount
  · rw [marks_append]
    refine Ledger.holds_append.2 ⟨ht.explained, ?_⟩
    have hcoherent := coherent_ledger n tr
    change (ledger n tr).Explained (marks out)
    cases h
    case add t hpc =>
      have hfound := (hcoherent.record (.add t 1)).found_read t
      rw [← hcount]
      exact ⟨trivial, trivial, hfound.explained, trivial⟩
    case read t hpc =>
      have hfound := hcoherent.found_read t
      rw [← hcount]
      exact ⟨trivial, hfound.explained, trivial⟩
    -- the other steps answer nothing
    all_goals trivial

/-- Every run from a count with no call in progress keeps the ledger. -/
theorem tracks_of_run {overflowChecks : Bool} {n : UInt64} {es : List (Event ι)} {s : State ι}
    {tr : List (Obs ι)}
    (hrun : (machine ι overflowChecks).run es (startAt n, []) = some (s, tr)) : Tracks n s tr :=
  Machine.run_induct_all (P := Tracks n)
    (fun _ _ _ _ _ ht he => (moves_of_step ht.below he).tracks ht) hrun
    ⟨fun _ => trivial, rfl, trivial⟩

/-- What holds while threads only decrement. -/
structure Releasing (n : UInt64) (s : State ι) (tr : List (Obs ι)) : Prop where
  tracks : Tracks n s tr
  points : ∀ t, s.pc t = .idle ∨ s.pc t = .updating ∨ s.pc t = .reading
  owing : ∀ t, t ∈ (ledger n tr).owing ↔ s.pc t = .reading
  alternating : (Ledger.start n).Alternating (marks tr)
  lowering : saturated tr = [] → Lowering (.start n) (marks tr)

/-- A step of a decrement moves its thread, and only this thread's debt may change. -/
theorem Releasing.append {n : UInt64} {s s' : State ι} {tr out : List (Obs ι)} {t : ι} {pc : Pc}
    (h : Releasing n s tr) (htracks : Tracks n (s'.goto t pc) (tr ++ out)) (hs : s'.pc = s.pc)
    (hpc : pc = .idle ∨ pc = .updating ∨ pc = .reading)
    (howing : ∀ u, u ∈ ((ledger n tr).replay (marks out)).owing ↔
      if u = t then pc = .reading else u ∈ (ledger n tr).owing)
    (halternating : (ledger n tr).Alternating (marks out))
    (hlowering : saturated out = [] → Lowering (ledger n tr) (marks out)) :
    Releasing n (s'.goto t pc) (tr ++ out) := by
  refine ⟨htracks, fun u => ?_, fun u => ?_, ?_, fun hsaturated => ?_⟩
  · rw [State.goto_pc, hs]
    split
    · exact hpc
    · exact h.points u
  · rw [ledger_append, howing, State.goto_pc, hs]
    split
    · exact Iff.rfl
    · exact h.owing u
  · rw [marks_append]
    exact Ledger.holds_append.2 ⟨h.alternating, halternating⟩
  · rw [saturated_append, List.append_eq_nil_iff] at hsaturated
    rw [marks_append]
    exact Ledger.holds_append.2 ⟨h.lowering hsaturated.1, hlowering hsaturated.2⟩

/-- Every step of a decrement keeps that. -/
theorem Moves.releasing {n : UInt64} {s s' : State ι} {e : Event ι} {tr out : List (Obs ι)}
    (h : Moves s e s' out) (hr : Releasing n s tr) (hno : ∀ t max, e ≠ .increment t max) :
    Releasing n s' (tr ++ out) := by
  have htracks := h.tracks hr.tracks
  have hpoints : ∀ {t pc}, s.pc t = pc → pc = .idle ∨ pc = .updating ∨ pc = .reading :=
    fun {t pc} hpc => hpc ▸ hr.points t
  cases h with
  | @callDecrement t hpc =>
    refine hr.append htracks rfl (by simp) (fun u => ?_) trivial fun _ => trivial
    exact Ledger.mem_owing_kept (l := ledger n tr) (by simp [hr.owing, hpc])
  | @release t hpc hpos =>
    have hout : t ∉ (ledger n tr).owing := by simp [hr.owing, hpc]
    refine hr.append htracks rfl (by simp) (fun u => ?_) ?_ fun _ => ?_
    · exact (ledger n tr).mem_owing_add (-1) rfl
    · exact ⟨⟨hout, trivial⟩, trivial⟩
    · exact ⟨⟨rfl, hr.tracks.count ▸ hpos⟩, trivial⟩
  | @saturate t hpc hzero =>
    have hout : t ∉ (ledger n tr).owing := by simp [hr.owing, hpc]
    refine hr.append htracks rfl (by simp) (fun u => ?_) ?_ fun hnone => ?_
    · exact (ledger n tr).mem_owing_add 0 rfl
    · exact ⟨⟨hout, trivial⟩, trivial⟩
    · cases hnone
  | @read t hpc =>
    have hin : t ∈ (ledger n tr).owing := by simp [hr.owing, hpc]
    refine hr.append htracks rfl (by simp) (fun u => ?_) ?_ fun _ => ?_
    · exact ((ledger n tr).record (.read t)).mem_owing_answer s.inner (by simp)
    · exact ⟨⟨trivial, trivial⟩, ⟨trivial, hin⟩, trivial⟩
    · exact ⟨trivial, trivial, trivial⟩
  | call hpc => exact absurd rfl (hno _ _)
  | load hpc | refuse hpc | compare hpc | overflow hpc | retry hpc =>
    exact absurd (hpoints hpc) (by simp)
  | add hpc => obtain hpc | ⟨_, hpc⟩ := hpc <;> exact absurd (hpoints hpc) (by simp)

/-- Every run without increments keeps that. -/
theorem releasing_of_run {overflowChecks : Bool} {n : UInt64} {es : List (Event ι)} {s : State ι}
    {tr : List (Obs ι)} (hno : ∀ e ∈ es, ∀ t max, e ≠ .increment t max)
    (hrun : (machine ι overflowChecks).run es (startAt n, []) = some (s, tr)) : Releasing n s tr :=
  Machine.run_induct (P := Releasing n) (G := fun _ _ e => ∀ t max, e ≠ .increment t max)
    (fun _ _ _ _ _ hr hno he => (moves_of_step hr.tracks.below he).releasing hr hno) hrun
    (Machine.meets_of_forall (fun e he _ _ => hno e he) _)
    ⟨⟨fun _ => trivial, rfl, trivial⟩, fun _ => .inl rfl, fun _ => by simp [ledger, marks, startAt,
      Ledger.replay, Ledger.start], trivial, fun _ => trivial⟩

/-- Once the count is down to zero and all calls are over, linearized answers are the numbers below
the first count. -/
theorem Releasing.perm_range {n : UInt64} {s : State ι} {tr : List (Obs ι)} (h : Releasing n s tr)
    (hlinearized : (Ledger.start n).Linearized (marks tr)) (hsaturated : saturated tr = [])
    (hidle : ∀ t, s.pc t = .idle) (hzero : s.inner = 0) :
    ((Ledger.answers (marks tr)).map UInt64.toNat).Perm (List.range n.toNat) := by
  have hdone : (ledger n tr).owing = ∅ := by
    refine Finset.eq_empty_of_forall_notMem fun t hmem => ?_
    have hreading := (h.owing t).1 hmem
    rw [hidle t] at hreading
    cases hreading
  exact (h.lowering hsaturated).perm_range h.alternating hlinearized hdone (h.tracks.count.trans hzero)

end ConnectionCounter

namespace Gauges

variable {ι : Type*} [DecidableEq ι]

/-- No decrement of the connections found them at zero. -/
def Unsaturated (tr : List (Obs ι)) : Prop := ∀ t, .lowered t .connections true ∉ tr

/-- What holds while the connections are only decremented; rooms may come and go. -/
structure Releasing (n : UInt64) (s : State ι) (tr : List (Obs ι)) : Prop where
  tracks : Tracks n .connections s tr
  points : ∀ t, s.pc t ≠ .adding .connections
  owing : ∀ t, t ∈ (ledger n .connections tr).owing ↔ (s.pc t).Owes .connections
  alternating : (Ledger.start n).Alternating (marks .connections tr)
  lowering : Unsaturated tr → Lowering (.start n) (marks .connections tr)

/-- A step moves one thread, and only this thread's debt may change. -/
theorem Releasing.append {n : UInt64} {s s' : State ι} {tr out : List (Obs ι)} {t : ι} {pc : Pc}
    (h : Releasing n s tr) (htracks : Tracks n .connections (s'.goto t pc) (tr ++ out))
    (hs : s'.pc = s.pc) (hpc : pc ≠ .adding .connections)
    (howing : ∀ u, u ∈ ((ledger n .connections tr).replay (marks .connections out)).owing ↔
      if u = t then pc.Owes .connections else u ∈ (ledger n .connections tr).owing)
    (halternating : (ledger n .connections tr).Alternating (marks .connections out))
    (hlowering : Unsaturated out → Lowering (ledger n .connections tr) (marks .connections out)) :
    Releasing n (s'.goto t pc) (tr ++ out) := by
  have hgoto : ∀ u, (s'.goto t pc).pc u = if u = t then pc else s.pc u := by
    intro u
    rw [← hs]
    exact Function.update_apply ..
  refine ⟨htracks, fun u => ?_, fun u => ?_, ?_, fun hunsaturated => ?_⟩
  · rw [hgoto]
    split
    · exact hpc
    · exact h.points u
  · rw [ledger_append, howing, hgoto]
    split
    · exact Iff.rfl
    · exact h.owing u
  · rw [marks_append]
    exact Ledger.holds_append.2 ⟨h.alternating, halternating⟩
  · rw [marks_append]
    exact Ledger.holds_append.2
      ⟨h.lowering fun u hmem => hunsaturated u (List.mem_append_left out hmem),
        hlowering fun u hmem => hunsaturated u (List.mem_append_right tr hmem)⟩

/-- A step that is not about the connections. -/
theorem Releasing.append_of_marks_eq_nil {n : UInt64} {s s' : State ι} {tr out : List (Obs ι)}
    {t : ι} {pc : Pc} (h : Releasing n s tr)
    (htracks : Tracks n .connections (s'.goto t pc) (tr ++ out)) (hs : s'.pc = s.pc)
    (hmarks : marks .connections out = []) (ht : ¬ (s.pc t).Owes .connections)
    (hpc : pc ≠ .adding .connections) (howes : ¬ pc.Owes .connections) :
    Releasing n (s'.goto t pc) (tr ++ out) := by
  refine h.append htracks hs hpc (fun u => ?_) ?_ fun _ => ?_ <;> rw [hmarks]
  · exact Ledger.mem_owing_kept (l := ledger n .connections tr) (by simp [h.owing, ht, howes])
  · trivial
  · trivial

/-- A load of the connections changes no debt. -/
theorem Releasing.loaded {n : UInt64} {s : State ι} {tr : List (Obs ι)} {t : ι}
    (h : Releasing n s tr) (htracks : Tracks n .connections s (tr ++ [.loaded t .connections])) :
    Releasing n s (tr ++ [.loaded t .connections]) := by
  refine ⟨htracks, h.points, fun u => ?_, ?_, fun hunsaturated => ?_⟩
  · rw [ledger_append]
    exact h.owing u
  · rw [marks_append]
    exact Ledger.holds_append.2 ⟨h.alternating, ⟨trivial, trivial⟩, trivial⟩
  · rw [marks_append]
    refine Ledger.holds_append.2 ⟨h.lowering fun u hmem => ?_, trivial, trivial⟩
    exact hunsaturated u (List.mem_append_left _ hmem)

/-- A call on the connections that has its value keeps that. -/
theorem Releasing.reported {metrics : Bool} {n : UInt64} {s s' : State ι} {tr out : List (Obs ι)}
    {t : ι} {v : UInt64} (h : Releasing n s tr)
    (hfound : (ledger n .connections tr).Found t v) (ht : (s.pc t).Owes .connections)
    (hreport : report metrics s t .connections v = (s', out)) : Releasing n s' (tr ++ out) := by
  have hin : t ∈ (ledger n .connections tr).owing := (h.owing t).2 ht
  have htracks := h.tracks.reported (fun _ => hfound) hreport
  obtain ⟨rfl, rfl⟩ | ⟨rfl, rfl⟩ := report_cases hreport
  · refine h.append htracks rfl (by simp) (fun u => ?_) trivial fun _ => trivial
    exact Ledger.mem_owing_kept (l := ledger n .connections tr) (iff_of_true hin rfl)
  · have hmarks : marks .connections [Obs.returned t .connections (Gauge.connections.result v)] =
        [.answer t v] := rfl
    refine h.append htracks rfl (by simp) (fun u => ?_) ?_ fun _ => ?_ <;> rw [hmarks]
    · exact (ledger n .connections tr).mem_owing_answer v id
    · exact ⟨⟨trivial, hin⟩, trivial⟩
    · exact ⟨trivial, trivial⟩

/-- A call that lowers a gauge owes its value from then on. -/
theorem Releasing.lowered {n : UInt64} {s s' : State ι} {tr : List (Obs ι)} {t : ι} {g : Gauge}
    {saturated : Bool} (h : Releasing n s tr) (hpc : s.pc t = .lowering g)
    (hpos : saturated = false → s.counts g ≠ 0) (hs : s'.pc = s.pc)
    (htracks : Tracks n .connections (s'.goto t (.loading g)) (tr ++ [.lowered t g saturated])) :
    Releasing n (s'.goto t (.loading g)) (tr ++ [.lowered t g saturated]) := by
  by_cases hg : g = .connections
  · subst hg
    have hout : t ∉ (ledger n .connections tr).owing := by simp [h.owing, hpc, Pc.Owes]
    have hmarks : marks .connections [Obs.lowered t .connections saturated] =
        [.add t (if saturated then 0 else -1)] := rfl
    refine h.append htracks hs (by simp) (fun u => ?_) ?_ fun hunsaturated => ?_ <;> rw [hmarks]
    · exact (ledger n .connections tr).mem_owing_add _ rfl
    · exact ⟨⟨hout, trivial⟩, trivial⟩
    · cases saturated with
      | false => exact ⟨⟨rfl, h.tracks.count ▸ hpos rfl⟩, trivial⟩
      | true => exact absurd List.mem_cons_self (hunsaturated t)
  · exact h.append_of_marks_eq_nil htracks hs (by simp [marks, marksOf, hg])
      (by simp [hpc, Pc.Owes]) (by simp) hg

/-- A call on the rooms that has its value keeps that too. -/
theorem Releasing.reported_of_ne {metrics : Bool} {n : UInt64} {s s' s'' : State ι}
    {tr out : List (Obs ι)} {o : Obs ι} {t : ι} {g : Gauge} {v : UInt64} (h : Releasing n s tr)
    (hg : g ≠ .connections) (ht : ¬ (s.pc t).Owes .connections)
    (hmark : marksOf .connections o = []) (hreport : report metrics s' t g v = (s'', out))
    (hs : s'.pc = s.pc) (htracks : Tracks n .connections s'' (tr ++ o :: out)) : Releasing n s'' (tr ++ o :: out) := by
  obtain ⟨rfl, rfl⟩ | ⟨rfl, rfl⟩ := report_cases hreport
  · exact h.append_of_marks_eq_nil htracks hs (by simp [marks, hmark]) ht (by simp) hg
  · have hanswer : marksOf .connections (.returned t g (g.result v)) = [] := by simp [marksOf, hg]
    exact h.append_of_marks_eq_nil htracks hs (by simp [marks, hmark, hanswer]) ht (by simp) id

/-- Every step but the start of an increment keeps that. -/
theorem Moves.releasing {metrics : Bool} {n : UInt64} {s s' : State ι} {e : Event ι}
    {tr out : List (Obs ι)} (h : Moves metrics s e s' out) (hr : Releasing n s tr)
    (hno : ∀ t, e ≠ .incConnections t) : Releasing n s' (tr ++ out) := by
  have htracks := h.tracks hr.tracks
  cases h with
  | @callAdd t g hpc =>
    have hg : g ≠ .connections := fun heq => hno t (heq ▸ rfl)
    exact hr.append_of_marks_eq_nil htracks rfl rfl (by simp [hpc, Pc.Owes]) (by simp [hg]) id
  | @callLower t g hpc =>
    exact hr.append_of_marks_eq_nil htracks rfl rfl (by simp [hpc, Pc.Owes]) (by simp) id
  | @add t g _ out hpc hreport =>
    have hg : g ≠ .connections := fun heq => hr.points t (heq ▸ hpc)
    have hout : ¬ (s.pc t).Owes .connections := by simp [hpc, Pc.Owes]
    exact hr.reported_of_ne hg hout (by simp [marksOf, hg]) hreport rfl htracks
  | @overflow t g hpc hfull =>
    have hg : g ≠ .connections := fun heq => hr.points t (heq ▸ hpc)
    exact hr.append_of_marks_eq_nil htracks rfl (by simp [marks, marksOf, hg])
      (by simp [hpc, Pc.Owes]) (by simp) id
  | @lower t g hpc hpos => exact hr.lowered hpc (fun _ => hpos) rfl htracks
  | @saturate t g hpc hzero => exact hr.lowered hpc (by simp) rfl htracks
  | @load t g _ out hpc hreport =>
    obtain ⟨hloaded, hfound⟩ := hr.tracks.loaded (t := t) (by simp [hpc]) g
    by_cases hg : g = .connections
    · subst hg
      rw [List.append_cons]
      exact (hr.loaded hloaded).reported (hfound rfl) (by rw [hpc]; rfl) hreport
    · have hout : ¬ (s.pc t).Owes .connections := by simp [hpc, Pc.Owes, hg]
      exact hr.reported_of_ne hg hout (by simp [marksOf, hg]) hreport rfl htracks
  | @set t g v hpc =>
    by_cases hg : g = .connections
    · subst hg
      have hmarks : marks .connections [Obs.set t .connections v,
          .returned t .connections (Gauge.connections.result v)] = [.publish t, .answer t v] := rfl
      have hin : t ∈ (ledger n .connections tr).owing := (hr.owing t).2 (by rw [hpc]; rfl)
      refine hr.append htracks rfl (by simp) (fun u => ?_) ?_ fun _ => ?_ <;> rw [hmarks]
      · exact ((ledger n .connections tr).record (.publish t)).mem_owing_answer v id
      · exact ⟨⟨trivial, trivial⟩, ⟨trivial, hin⟩, trivial⟩
      · exact ⟨trivial, trivial, trivial⟩
    · exact hr.append_of_marks_eq_nil htracks rfl (by simp [marks, marksOf, hg])
        (by simp [hpc, Pc.Owes, hg]) (by simp) id

/-- Every run without increments of the connections keeps that. -/
theorem releasing_of_run {overflowChecks metrics : Bool} {counts : Gauge → UInt64}
    {es : List (Event ι)} {s : State ι} {tr : List (Obs ι)}
    (hno : ∀ e ∈ es, ∀ t, e ≠ .incConnections t)
    (hrun : (machine ι overflowChecks metrics).run es (start counts, []) = some (s, tr)) :
    Releasing (counts .connections) s tr :=
  Machine.run_induct (P := Releasing (counts .connections)) (G := fun _ _ e => ∀ t, e ≠ .incConnections t)
    (fun _ _ _ _ _ hr hno he => (moves_of_step he).releasing hr hno) hrun
    (Machine.meets_of_forall (fun e he _ _ => hno e he) _)
    ⟨tracks_start counts .connections, fun _ => by simp [start], fun _ => by simp [ledger, marks,
      start, Ledger.replay, Ledger.start, Pc.Owes], trivial, fun _ => trivial⟩

/-- Once no connection is left and all calls are over, linearized answers are the numbers below the
first count. -/
theorem Releasing.perm_range {n : UInt64} {s : State ι} {tr : List (Obs ι)} (h : Releasing n s tr)
    (hlinearized : (Ledger.start n).Linearized (marks .connections tr))
    (hunsaturated : Unsaturated tr) (hidle : ∀ t, s.pc t = .idle)
    (hzero : s.counts .connections = 0) :
    ((Ledger.answers (marks .connections tr)).map UInt64.toNat).Perm (List.range n.toNat) := by
  have hdone : (ledger n .connections tr).owing = ∅ := by
    refine Finset.eq_empty_of_forall_notMem fun t hmem => ?_
    have howes := (h.owing t).1 hmem
    rw [hidle t] at howes
    exact howes
  exact (h.lowering hunsaturated).perm_range h.alternating hlinearized hdone
    (h.tracks.count.trans hzero)

end Gauges

/-- In every run of either counter, from any count, whatever limits the increments pass, every
returned count is the one right after its call's own update exactly when, for every answer, what
others added between its call's update and its reading cancels out. When that is so and the
connections are only decremented, down to zero without saturating, the counts returned once all
calls are over are the numbers below the first count, each once. -/
theorem answers_linearized_iff (ι : Type*) [DecidableEq ι] (overflowChecks metrics : Bool)
    (n : UInt64) :
    (∀ es s tr, (ConnectionCounter.machine ι overflowChecks).run es
        (ConnectionCounter.startAt n, []) = some (s, tr) →
      ((Ledger.start n).Linearized (ConnectionCounter.marks tr) ↔
        (Ledger.start n).Undisturbed (ConnectionCounter.marks tr)) ∧
      ((Ledger.start n).Undisturbed (ConnectionCounter.marks tr) →
        (∀ e ∈ es, ∀ t max, e ≠ .increment t max) → ConnectionCounter.saturated tr = [] →
        (∀ t, s.pc t = .idle) → s.inner = 0 →
        ((Ledger.answers (ConnectionCounter.marks tr)).map UInt64.toNat).Perm
          (List.range n.toNat))) ∧
    ∀ counts : Gauges.Gauge → UInt64, counts .connections = n →
      ∀ es s tr, (Gauges.machine ι overflowChecks metrics).run es (Gauges.start counts, []) =
          some (s, tr) →
        ((Ledger.start n).Linearized (Gauges.marks .connections tr) ↔
          (Ledger.start n).Undisturbed (Gauges.marks .connections tr)) ∧
        ((Ledger.start n).Undisturbed (Gauges.marks .connections tr) →
          (∀ e ∈ es, ∀ t, e ≠ .incConnections t) → Gauges.Unsaturated tr →
          (∀ t, s.pc t = .idle) → s.counts .connections = 0 →
          ((Ledger.answers (Gauges.marks .connections tr)).map UInt64.toNat).Perm
            (List.range n.toNat)) := by
  refine ⟨fun es s tr hrun => ?_, fun counts hcounts es s tr hrun => ?_⟩
  · have hiff := (ConnectionCounter.tracks_of_run hrun).explained.linearized_iff
    refine ⟨hiff, fun hundisturbed hno => ?_⟩
    exact (ConnectionCounter.releasing_of_run hno hrun).perm_range (hiff.2 hundisturbed)
  · subst hcounts
    have hiff := (Gauges.tracks_of_run hrun .connections).explained.linearized_iff
    refine ⟨hiff, fun hundisturbed hno => ?_⟩
    exact (Gauges.releasing_of_run hno hrun).perm_range (hiff.2 hundisturbed)

/-- Two threads give back the last two places, one after the other or together: then both lower the
count before either loads it. -/
def lastTwo {ι : Type*} (t u : ι) : Bool → List (ConnectionCounter.Event ι)
  | false => [.decrement t, .advance t, .advance t, .decrement u, .advance u, .advance u]
  | true => [.decrement t, .decrement u, .advance t, .advance u, .advance t, .advance u]

/-- One after the other, they return one and zero. -/
theorem answers_linearized_iff_inTurn : ∃ s tr,
    (ConnectionCounter.machine (Fin 2) true).run (lastTwo 0 1 false)
      (ConnectionCounter.startAt 2, []) = some (s, tr) ∧
    (Ledger.start 2).Linearized (ConnectionCounter.marks tr) ∧
    ((Ledger.answers (ConnectionCounter.marks tr)).map UInt64.toNat).Perm (List.range 2) := by
  have hrun : (ConnectionCounter.machine (Fin 2) true).run (lastTwo 0 1 false)
      (ConnectionCounter.startAt 2, []) = some (_, _) := rfl
  obtain ⟨hiff, hperm⟩ := (answers_linearized_iff (Fin 2) true false 2).1 _ _ _ hrun
  exact ⟨_, _, hrun, hiff.2 (by decide),
    hperm (by decide) (by simp [lastTwo]) rfl (by decide) rfl⟩

/-- Together, both return zero, though the first one's own update leaves one. -/
theorem lastTwo_bothZero : ∃ s tr,
    (ConnectionCounter.machine (Fin 2) true).run (lastTwo 0 1 true)
      (ConnectionCounter.startAt 2, []) = some (s, tr) ∧
    ¬ (Ledger.start 2).Linearized (ConnectionCounter.marks tr) ∧
    Ledger.answers (ConnectionCounter.marks tr) = [0, 0] := by
  exact ⟨_, _, rfl, by decide, rfl⟩

end WsKit
