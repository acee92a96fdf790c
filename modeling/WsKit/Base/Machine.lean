import Mathlib.Data.List.Basic

/-!
# Runs of machines that take one event at a time

A machine answers an event that is enabled in its state with the next state and what the
event lets an observer see. A run is any list of enabled events, so a statement about all
runs is a statement about all interleavings, and each of their prefixes is again a run.
-/

namespace Base

/-- A machine with states `σ`, events `ε` and observations `ο`; a disabled event has no step. -/
structure Machine (σ ε ο : Type*) where
  step : σ → ε → Option (σ × List ο)

namespace Machine

variable {σ ε ο : Type*}

/-- Take the events in order, appending what they show to the trace seen before. -/
def run (m : Machine σ ε ο) : List ε → σ × List ο → Option (σ × List ο)
  | [], c => some c
  | e :: es, c => (m.step c.1 e).bind fun next => m.run es (next.1, c.2 ++ next.2)

/-- Every event of the run satisfies `G` in the state, and after the trace, where it occurs. -/
def Meets (m : Machine σ ε ο) (G : σ → List ο → ε → Prop) : List ε → σ × List ο → Prop
  | [], _ => True
  | e :: es, c => G c.1 c.2 e ∧
      match m.step c.1 e with
      | none => True
      | some next => m.Meets G es (next.1, c.2 ++ next.2)

/-- Whether a run meets a decidable condition can be computed. -/
instance decidableMeets (m : Machine σ ε ο) (G : σ → List ο → ε → Prop)
    [∀ s tr e, Decidable (G s tr e)] : ∀ es c, Decidable (m.Meets G es c)
  | [], _ => isTrue True.intro
  | e :: es, c =>
    have : Decidable (match m.step c.1 e with
        | none => True
        | some next => m.Meets G es (next.1, c.2 ++ next.2)) :=
      match m.step c.1 e with
      | none => isTrue True.intro
      | some next => decidableMeets m G es (next.1, c.2 ++ next.2)
    inferInstanceAs (Decidable (_ ∧ _))

variable {m : Machine σ ε ο}

/-- A nonempty run is a first step followed by a run. -/
theorem run_cons_eq_some {e : ε} {es : List ε} {c c' : σ × List ο} :
    m.run (e :: es) c = some c' ↔
      ∃ s out, m.step c.1 e = some (s, out) ∧ m.run es (s, c.2 ++ out) = some c' := by
  rw [run, Option.bind_eq_some_iff]
  exact ⟨fun ⟨next, h⟩ => ⟨next.1, next.2, h⟩, fun ⟨s, out, h⟩ => ⟨(s, out), h⟩⟩

/-- A condition on the events alone is met by every run of such events. -/
theorem meets_of_forall {G : σ → List ο → ε → Prop} {es : List ε}
    (h : ∀ e ∈ es, ∀ s tr, G s tr e) (c : σ × List ο) : m.Meets G es c := by
  induction es generalizing c with
  | nil => trivial
  | cons e es ih =>
    refine ⟨h e (by simp) c.1 c.2, ?_⟩
    split
    · trivial
    · exact ih (fun e' he' => h e' (by simp [he'])) _

/-- Two conditions met by a run are met together. -/
theorem Meets.and {G G' : σ → List ο → ε → Prop} {es : List ε} {c : σ × List ο}
    (h : m.Meets G es c) (h' : m.Meets G' es c) :
    m.Meets (fun s tr e => G s tr e ∧ G' s tr e) es c := by
  induction es generalizing c with
  | nil => trivial
  | cons e es ih =>
    refine ⟨⟨h.1, h'.1⟩, ?_⟩
    have hrest := h.2
    have hrest' := h'.2
    split
    · trivial
    · next he =>
      rw [he] at hrest hrest'
      exact ih hrest hrest'

/-- The induction rule of runs: what every step that meets the condition preserves holds after
every run whose steps meet it. -/
theorem run_induct {G : σ → List ο → ε → Prop} {P : σ → List ο → Prop}
    (hstep : ∀ s tr e s' out, P s tr → G s tr e → m.step s e = some (s', out) → P s' (tr ++ out))
    {es : List ε} {c c' : σ × List ο} (hrun : m.run es c = some c') (hmeets : m.Meets G es c)
    (hinit : P c.1 c.2) : P c'.1 c'.2 := by
  induction es generalizing c with
  | nil =>
    rw [run, Option.some.injEq] at hrun
    rwa [← hrun]
  | cons e es ih =>
    obtain ⟨s, out, he, hes⟩ := run_cons_eq_some.1 hrun
    obtain ⟨hguard, hrest⟩ := hmeets
    rw [he] at hrest
    exact ih hes hrest (hstep c.1 c.2 e s out hinit hguard he)

/-- The induction rule for runs without a condition. -/
theorem run_induct_all {P : σ → List ο → Prop}
    (hstep : ∀ s tr e s' out, P s tr → m.step s e = some (s', out) → P s' (tr ++ out))
    {es : List ε} {c c' : σ × List ο} (hrun : m.run es c = some c') (hinit : P c.1 c.2) :
    P c'.1 c'.2 :=
  run_induct (fun s tr e s' out hP _ he => hstep s tr e s' out hP he) hrun
    (meets_of_forall (G := fun _ _ _ => True) (fun _ _ _ _ => trivial) c) hinit

/-- A property that every step keeps exactly when it meets the condition holds after a run exactly
when all of its steps do. The steps may assume an invariant, and a fact about the trace that holds
of shorter traces too. -/
theorem meets_iff_of_step {G : σ → List ο → ε → Prop} {I Q : σ → List ο → Prop} {F : List ο → Prop}
    (hstep : ∀ s tr e s' out, I s tr → m.step s e = some (s', out) → I s' (tr ++ out) ∧
      (F (tr ++ out) → F tr ∧ (Q s' (tr ++ out) ↔ Q s tr ∧ G s tr e)))
    {es : List ε} {c c' : σ × List ο} (hrun : m.run es c = some c') (hinit : I c.1 c.2)
    (hfinal : F c'.2) : F c.2 ∧ (Q c'.1 c'.2 ↔ Q c.1 c.2 ∧ m.Meets G es c) := by
  induction es generalizing c with
  | nil =>
    rw [run, Option.some.injEq] at hrun
    rw [← hrun] at hfinal ⊢
    exact ⟨hfinal, (and_true _).to_iff.symm⟩
  | cons e es ih =>
    obtain ⟨s, out, he, hes⟩ := run_cons_eq_some.1 hrun
    obtain ⟨hnext, hback⟩ := hstep c.1 c.2 e s out hinit he
    obtain ⟨hfits, hrest⟩ := ih hes hnext
    obtain ⟨hfits, hfirst⟩ := hback hfits
    refine ⟨hfits, ?_⟩
    rw [hrest, hfirst, and_assoc, Meets, he]

end Machine

end Base
