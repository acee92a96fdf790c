import WsKit.Base.Machine

/-!
# Machines that follow another one

A machine is followed by a second one when each of its steps is matched by a few steps of the
other, often none. What the second one is asked and what it answers along a run are then read off
the states of the first. So two machines that the same one follows in the same way, and that ask it
for the same things, are answered the same.
-/

namespace Base.Machine

variable {σ ε ο σ' ε' ο' α : Type*}

/-- What the steps of a run contribute, each in the state in which it is taken. -/
def along (m : Machine σ ε ο) (f : σ → ε → List α) : List ε → σ → List α
  | [], _ => []
  | e :: es, s => f s e ++ (m.step s e).elim [] fun next => m.along f es next.1

variable {m : Machine σ ε ο} {n : Machine σ' ε' ο'}

/-- A first step contributes first. -/
theorem along_cons {f : σ → ε → List α} {e : ε} {s s' : σ} {out : List ο}
    (h : m.step s e = some (s', out)) (es : List ε) :
    m.along f (e :: es) s = f s e ++ m.along f es s' := by
  rw [along, h, Option.elim_some]

/-- The induction rule of what runs contribute: it holds of a state and of all that was contributed
before, when every step keeps it. -/
theorem along_induct {f : σ → ε → List α} {P : σ → List α → Prop}
    (hstep : ∀ s seen e s' out, P s seen → m.step s e = some (s', out) → P s' (seen ++ f s e))
    {es : List ε} {c c' : σ × List ο} (hrun : m.run es c = some c') {seen : List α}
    (hinit : P c.1 seen) : P c'.1 (seen ++ m.along f es c.1) := by
  induction es generalizing c seen with
  | nil =>
    rw [run, Option.some.injEq] at hrun
    rw [← hrun, along, List.append_nil]
    exact hinit
  | cons e es ih =>
    obtain ⟨s, out, he, hes⟩ := run_cons_eq_some.1 hrun
    rw [along_cons he, ← List.append_assoc]
    exact ih hes (hstep c.1 seen e s out hinit he)

/-- Two runs after each other are a run. -/
theorem run_append (es es' : List ε) (c : σ × List ο) :
    m.run (es ++ es') c = (m.run es c).bind (m.run es') := by
  induction es generalizing c with
  | nil => rfl
  | cons e es ih =>
    rw [List.cons_append, run, run, Option.bind_assoc]
    exact Option.bind_congr fun next _ => ih _

/-- A step of one machine, in states related by `R`, is matched by what `calls` asks the other one,
which answers with what `answers` says. -/
def Follows (m : Machine σ ε ο) (n : Machine σ' ε' ο') (R : σ → σ' → Prop)
    (calls : σ → ε → List ε') (answers : σ → ε → List ο') : Prop :=
  ∀ s t e s' out, R s t → m.step s e = some (s', out) →
    ∃ t', (∀ tr, n.run (calls s e) (t, tr) = some (t', tr ++ answers s e)) ∧ R s' t'

variable {R : σ → σ' → Prop} {calls : σ → ε → List ε'} {answers : σ → ε → List ο'}

/-- Every run is matched by a run. -/
theorem Follows.run (h : m.Follows n R calls answers) {es : List ε} {c c' : σ × List ο}
    (hrun : m.run es c = some c') {t : σ'} (hinit : R c.1 t) :
    ∃ t', (∀ tr, n.run (m.along calls es c.1) (t, tr) =
      some (t', tr ++ m.along answers es c.1)) ∧ R c'.1 t' := by
  induction es generalizing c t with
  | nil =>
    rw [Machine.run, Option.some.injEq] at hrun
    refine ⟨t, fun tr => ?_, hrun ▸ hinit⟩
    rw [along, along, Machine.run, List.append_nil]
  | cons e es ih =>
    obtain ⟨s, out, hstep, hes⟩ := run_cons_eq_some.1 hrun
    obtain ⟨t₁, hfirst, hnext⟩ := h c.1 t e s out hinit hstep
    obtain ⟨t', hrest, hend⟩ := ih hes hnext
    refine ⟨t', fun tr => ?_, hend⟩
    rw [along_cons hstep, along_cons hstep, run_append, hfirst, Option.bind_some, hrest,
      List.append_assoc]

/-- Runs that ask the same are answered the same, and end in states related to a common one. -/
theorem Follows.agree {σ₂ ε₂ ο₂ : Type*} {m₂ : Machine σ₂ ε₂ ο₂} {R₂ : σ₂ → σ' → Prop}
    {calls₂ : σ₂ → ε₂ → List ε'} {answers₂ : σ₂ → ε₂ → List ο'}
    (h : m.Follows n R calls answers) (h₂ : m₂.Follows n R₂ calls₂ answers₂)
    {es : List ε} {c c' : σ × List ο} (hrun : m.run es c = some c')
    {es₂ : List ε₂} {d d' : σ₂ × List ο₂} (hrun₂ : m₂.run es₂ d = some d')
    {t : σ'} (hinit : R c.1 t) (hinit₂ : R₂ d.1 t)
    (hsame : m₂.along calls₂ es₂ d.1 = m.along calls es c.1) :
    m₂.along answers₂ es₂ d.1 = m.along answers es c.1 ∧ ∃ t', R c'.1 t' ∧ R₂ d'.1 t' := by
  obtain ⟨t', hmatched, hend⟩ := h.run hrun hinit
  obtain ⟨t₂, hmatched₂, hend₂⟩ := h₂.run hrun₂ hinit₂
  have heq := hmatched₂ []
  rw [hsame, hmatched [], Option.some.injEq, Prod.mk.injEq] at heq
  obtain ⟨rfl, heq⟩ := heq
  exact ⟨heq.symm, t', hend, hend₂⟩

end Base.Machine
