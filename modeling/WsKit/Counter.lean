import WsKit.Base.Machine
import WsKit.Codec
import Mathlib.Data.List.Perm.Subperm

/-!
# The shared connection counter

Any number of threads call `increment` and `decrement` on one atomic `u64`. Every access to
it is one step: the load, the compare-exchange and the `fetch_add` of an increment, and the
saturating update and the final load of a decrement. A thread's program counter keeps what it
has read, which may be arbitrarily stale by its next step.
-/

namespace WsKit.ConnectionCounter

open Base

/-- Where a thread stands in a call. -/
inductive Pc where
  | idle
  | loading (max : Option UInt64)
  | comparing (limit current : UInt64)
  | exchanging (limit current : UInt64)
  | updating
  | reading
  deriving DecidableEq

/-- The shared atomic and the threads. -/
structure State (ι : Type*) where
  inner : UInt64
  pc : ι → Pc

/-- A thread starts a call, or takes the next step of the call it is in. -/
inductive Event (ι : Type*) where
  | increment (t : ι) (max : Option UInt64)
  | decrement (t : ι)
  | advance (t : ι)
  deriving DecidableEq

/-- What calls show: an increment's result, the start of a decrement, whether its update
saturated, and the count it returns. -/
inductive Obs (ι : Type*) where
  | incremented (t : ι) (result : Outcome WsError UInt64)
  | decrementing (t : ι)
  | updated (t : ι) (saturated : Bool)
  | decremented (t : ι) (count : UInt64)
  deriving DecidableEq

variable {ι : Type*}

/-- A counter at zero with no call in progress. -/
def new : State ι := ⟨0, fun _ => .idle⟩

namespace State

/-- The atomic takes a new value. -/
def store (s : State ι) (value : UInt64) : State ι := { s with inner := value }

@[simp] theorem store_inner (s : State ι) (value : UInt64) : (s.store value).inner = value := rfl

@[simp] theorem store_pc (s : State ι) (value : UInt64) : (s.store value).pc = s.pc := rfl

variable [DecidableEq ι]

/-- A thread moves to another point of its call. -/
def goto (s : State ι) (t : ι) (pc : Pc) : State ι := { s with pc := Function.update s.pc t pc }

@[simp] theorem goto_inner (s : State ι) (t : ι) (pc : Pc) : (s.goto t pc).inner = s.inner := rfl

/-- Only the moving thread's program counter changes. -/
theorem goto_pc (s : State ι) (t : ι) (pc : Pc) (u : ι) :
    (s.goto t pc).pc u = if u = t then pc else s.pc u :=
  Function.update_apply ..

end State

variable [DecidableEq ι]

/-- The closure of the decrement's `fetch_update`. -/
def saturatingDec (v : UInt64) : Option UInt64 := if v = 0 then none else some (v - 1)

/-- One step. `current + 1` is evaluated before the exchange; `fetch_add` itself wraps. -/
def step (overflowChecks : Bool) (s : State ι) : Event ι → Option (State ι × List (Obs ι))
  | .increment t max => if s.pc t = .idle then some (s.goto t (.loading max), []) else none
  | .decrement t => if s.pc t = .idle then some (s.goto t .updating, [.decrementing t]) else none
  | .advance t =>
    match s.pc t with
    | .idle => none
    | .loading none =>
      some ((s.store (s.inner + 1)).goto t .idle,
        [.incremented t (Outcome.addU64 overflowChecks s.inner 1)])
    | .loading (some limit) => some (s.goto t (.comparing limit s.inner), [])
    | .comparing limit current =>
      if limit ≤ current then
        some (s.goto t .idle, [.incremented t (.error (.failed .tooManyConnections))])
      else some (s.goto t (.exchanging limit current), [])
    | .exchanging limit current =>
      match (Outcome.addU64 overflowChecks current 1 : Outcome WsError UInt64) with
      | .error fault => some (s.goto t .idle, [.incremented t (.error fault)])
      | .ok next =>
        if s.inner = current then
          some ((s.store next).goto t .idle, [.incremented t (.ok next)])
        else some (s.goto t (.loading (some limit)), [])
    | .updating =>
      match saturatingDec s.inner with
      | some v => some ((s.store v).goto t .reading, [.updated t false])
      | none => some (s.goto t .reading, [.updated t true])
    | .reading => some (s.goto t .idle, [.decremented t s.inner])

/-- The counter and its threads as a machine. -/
def machine (ι : Type*) [DecidableEq ι] (overflowChecks : Bool) :
    Machine (State ι) (Event ι) (Obs ι) :=
  ⟨step overflowChecks⟩

section Trace

variable {ι : Type*}

/-- The threads whose increments returned, in order. -/
def completed (tr : List (Obs ι)) : List ι :=
  tr.filterMap fun | .incremented t _ => some t | _ => none

/-- The threads whose increments succeeded, in order. -/
def succeeded (tr : List (Obs ι)) : List ι :=
  tr.filterMap fun | .incremented t (.ok _) => some t | _ => none

/-- The threads that called `decrement`, in order. -/
def releasing (tr : List (Obs ι)) : List ι :=
  tr.filterMap fun | .decrementing t => some t | _ => none

/-- The threads whose decrements lowered the count, in order. -/
def released (tr : List (Obs ι)) : List ι :=
  tr.filterMap fun | .updated t false => some t | _ => none

/-- The threads whose decrements found the count at zero, in order. -/
def saturated (tr : List (Obs ι)) : List ι :=
  tr.filterMap fun | .updated t true => some t | _ => none

@[simp] theorem succeeded_append (tr out : List (Obs ι)) :
    succeeded (tr ++ out) = succeeded tr ++ succeeded out := List.filterMap_append

@[simp] theorem completed_append (tr out : List (Obs ι)) :
    completed (tr ++ out) = completed tr ++ completed out := List.filterMap_append

@[simp] theorem releasing_append (tr out : List (Obs ι)) :
    releasing (tr ++ out) = releasing tr ++ releasing out := List.filterMap_append

@[simp] theorem released_append (tr out : List (Obs ι)) :
    released (tr ++ out) = released tr ++ released out := List.filterMap_append

@[simp] theorem saturated_append (tr out : List (Obs ι)) :
    saturated (tr ++ out) = saturated tr ++ saturated out := List.filterMap_append

end Trace

/-- The increments of a run all pass the same limit. -/
def UsesLimit (limit : UInt64) : Event ι → Prop
  | .increment _ max => max = some limit
  | _ => True

instance (limit : UInt64) : DecidablePred fun e : Event ι => UsesLimit limit e
  | .increment _ max => inferInstanceAs (Decidable (max = some limit))
  | .decrement _ => isTrue trivial
  | .advance _ => isTrue trivial

/-- A thread calls `decrement` only for an own earlier success that it has not yet used. -/
def OwnRelease (tr : List (Obs ι)) : Event ι → Prop
  | .decrement t => (releasing tr).count t < (succeeded tr).count t
  | _ => True

instance (tr : List (Obs ι)) : DecidablePred (OwnRelease tr)
  | .increment _ _ => isTrue trivial
  | .decrement t => inferInstanceAs (Decidable ((releasing tr).count t < (succeeded tr).count t))
  | .advance _ => isTrue trivial

/-- No thread calls `decrement`. -/
def NoDecrement : Event ι → Prop
  | .decrement _ => False
  | _ => True

/-- One more than a value below the limit fits in the atomic. -/
theorem add_one_lt_of_lt {current limit : UInt64} (h : current < limit) :
    current.toNat + (1 : UInt64).toNat < 2 ^ 64 := by
  have hcurrent := UInt64.lt_iff_toNat_lt.1 h
  have hlimit := limit.toNat_lt
  have hone : (1 : UInt64).toNat = 1 := rfl
  omega

/-- The value a thread exchanges for one below the limit does not overflow. -/
theorem addU64_one_of_lt (overflowChecks : Bool) {current limit : UInt64} (h : current < limit) :
    (Outcome.addU64 overflowChecks current 1 : Outcome WsError UInt64) = .ok (current + 1) :=
  (Outcome.addU64_of_lt overflowChecks (add_one_lt_of_lt h)).1

/-- That value is one more than the value it is exchanged for. -/
theorem toNat_add_one_of_lt {current limit : UInt64} (h : current < limit) :
    (current + 1).toNat = current.toNat + 1 := by
  rw [UInt64.toNat_add, Nat.mod_eq_of_lt (add_one_lt_of_lt h)]
  rfl

/-- A thread exchanges only below its limit. -/
def Pc.Below : Pc → Prop
  | .exchanging limit current => current < limit
  | _ => True

/-- What a step can do. -/
inductive Moves (s : State ι) : Event ι → State ι → List (Obs ι) → Prop
  | call {t max} (h : s.pc t = .idle) : Moves s (.increment t max) (s.goto t (.loading max)) []
  | callDecrement {t} (h : s.pc t = .idle) :
      Moves s (.decrement t) (s.goto t .updating) [.decrementing t]
  | load {t limit} (h : s.pc t = .loading (some limit)) :
      Moves s (.advance t) (s.goto t (.comparing limit s.inner)) []
  | refuse {t limit current} (h : s.pc t = .comparing limit current) (hfull : limit ≤ current) :
      Moves s (.advance t) (s.goto t .idle) [.incremented t (.error (.failed .tooManyConnections))]
  | compare {t limit current} (h : s.pc t = .comparing limit current) (hroom : current < limit) :
      Moves s (.advance t) (s.goto t (.exchanging limit current)) []
  | add {t} (h : s.pc t = .loading none ∨ ∃ limit, s.pc t = .exchanging limit s.inner) :
      Moves s (.advance t) ((s.store (s.inner + 1)).goto t .idle)
        [.incremented t (.ok (s.inner + 1))]
  | overflow {t} (h : s.pc t = .loading none) :
      Moves s (.advance t) ((s.store (s.inner + 1)).goto t .idle)
        [.incremented t (.error .panicked)]
  | retry {t limit current} (h : s.pc t = .exchanging limit current) :
      Moves s (.advance t) (s.goto t (.loading (some limit))) []
  | release {t} (h : s.pc t = .updating) (hpos : s.inner ≠ 0) :
      Moves s (.advance t) ((s.store (s.inner - 1)).goto t .reading) [.updated t false]
  | saturate {t} (h : s.pc t = .updating) (hzero : s.inner = 0) :
      Moves s (.advance t) (s.goto t .reading) [.updated t true]
  | read {t} (h : s.pc t = .reading) :
      Moves s (.advance t) (s.goto t .idle) [.decremented t s.inner]

/-- Every step is one of those. -/
theorem moves_of_step {overflowChecks : Bool} {s s' : State ι} {e : Event ι} {out : List (Obs ι)}
    (hbelow : ∀ t, (s.pc t).Below) (h : step overflowChecks s e = some (s', out)) :
    Moves s e s' out := by
  cases e with
  | increment t max =>
    simp only [step, Option.ite_none_right_eq_some, Option.some.injEq, Prod.mk.injEq] at h
    obtain ⟨hidle, rfl, rfl⟩ := h
    exact .call hidle
  | decrement t =>
    simp only [step, Option.ite_none_right_eq_some, Option.some.injEq, Prod.mk.injEq] at h
    obtain ⟨hidle, rfl, rfl⟩ := h
    exact .callDecrement hidle
  | advance t =>
    have ht := hbelow t
    cases hpc : s.pc t with
    | idle => simp [step, hpc] at h
    | loading max =>
      cases max with
      | none =>
        simp only [step, hpc, Option.some.injEq, Prod.mk.injEq] at h
        obtain ⟨rfl, rfl⟩ := h
        cases hadd : (Outcome.addU64 overflowChecks s.inner 1 : Outcome WsError UInt64) with
        | error fault =>
          obtain rfl := Outcome.panicked_of_addU64_eq_error hadd
          exact .overflow hpc
        | ok v =>
          obtain rfl := Outcome.eq_of_addU64_eq_ok hadd
          exact .add (.inl hpc)
      | some limit =>
        simp only [step, hpc, Option.some.injEq, Prod.mk.injEq] at h
        obtain ⟨rfl, rfl⟩ := h
        exact .load hpc
    | comparing limit current =>
      simp only [step, hpc] at h
      split at h
      · next hfull =>
        cases h
        exact .refuse hpc hfull
      · next hroom =>
        cases h
        exact .compare hpc (UInt64.not_le.1 hroom)
    | exchanging limit current =>
      rw [hpc] at ht
      simp only [step, hpc, addU64_one_of_lt overflowChecks ht] at h
      split at h
      · next heq =>
        cases h
        subst heq
        exact .add (.inr ⟨limit, hpc⟩)
      · cases h
        exact .retry hpc
    | updating =>
      by_cases hzero : s.inner = 0
      · simp only [step, hpc, saturatingDec, if_pos hzero] at h
        cases h
        exact .saturate hpc hzero
      · simp only [step, hpc, saturatingDec, if_neg hzero] at h
        cases h
        exact .release hpc hzero
    | reading =>
      simp only [step, hpc, Option.some.injEq, Prod.mk.injEq] at h
      obtain ⟨rfl, rfl⟩ := h
      exact .read hpc

/-- Threads go on exchanging only below their limits. -/
theorem Moves.below {s s' : State ι} {e : Event ι} {out : List (Obs ι)} (h : Moves s e s' out)
    (hbelow : ∀ t, (s.pc t).Below) (u : ι) : (s'.pc u).Below := by
  cases h <;> rw [State.goto_pc] <;> split
  case compare.isTrue hroom _ => exact hroom
  all_goals first | trivial | exact hbelow u

/-- A thread inside an increment uses the limit, and exchanges only below it. -/
def Pc.Within (limit : UInt64) : Pc → Prop
  | .loading max => max = some limit
  | .comparing l _ => l = limit
  | .exchanging l current => l = limit ∧ current < limit
  | _ => True

/-- A thread within the limit exchanges only below it. -/
theorem Pc.Within.below {limit : UInt64} {pc : Pc} (h : pc.Within limit) : pc.Below := by
  cases pc with
  | exchanging l current =>
    obtain ⟨rfl, hroom⟩ := h
    exact hroom
  | _ => trivial

/-- What a step can do when every increment passes `limit`. -/
inductive LimitedStep (limit : UInt64) (s : State ι) : Event ι → State ι → List (Obs ι) → Prop
  | call {t} (h : s.pc t = .idle) :
      LimitedStep limit s (.increment t (some limit)) (s.goto t (.loading (some limit))) []
  | load {t} (h : s.pc t = .loading (some limit)) :
      LimitedStep limit s (.advance t) (s.goto t (.comparing limit s.inner)) []
  | refuse {t current} (h : s.pc t = .comparing limit current) (hfull : limit ≤ current) :
      LimitedStep limit s (.advance t) (s.goto t .idle)
        [.incremented t (.error (.failed .tooManyConnections))]
  | compare {t current} (h : s.pc t = .comparing limit current) (hroom : current < limit) :
      LimitedStep limit s (.advance t) (s.goto t (.exchanging limit current)) []
  | acquire {t} (h : s.pc t = .exchanging limit s.inner) (hroom : s.inner < limit) :
      LimitedStep limit s (.advance t) ((s.store (s.inner + 1)).goto t .idle)
        [.incremented t (.ok (s.inner + 1))]
  | retry {t current} (h : s.pc t = .exchanging limit current) :
      LimitedStep limit s (.advance t) (s.goto t (.loading (some limit))) []
  | callDecrement {t} (h : s.pc t = .idle) :
      LimitedStep limit s (.decrement t) (s.goto t .updating) [.decrementing t]
  | release {t} (h : s.pc t = .updating) (hpos : s.inner ≠ 0) :
      LimitedStep limit s (.advance t) ((s.store (s.inner - 1)).goto t .reading) [.updated t false]
  | saturate {t} (h : s.pc t = .updating) (hzero : s.inner = 0) :
      LimitedStep limit s (.advance t) (s.goto t .reading) [.updated t true]
  | read {t} (h : s.pc t = .reading) :
      LimitedStep limit s (.advance t) (s.goto t .idle) [.decremented t s.inner]

/-- Every step of limited threads is one of those. -/
theorem limitedStep_of_step {overflowChecks : Bool} {limit : UInt64} {s s' : State ι} {e : Event ι}
    {out : List (Obs ι)} (hwithin : ∀ t, (s.pc t).Within limit) (huses : UsesLimit limit e)
    (h : step overflowChecks s e = some (s', out)) : LimitedStep limit s e s' out := by
  have hown : ∀ {t pc}, s.pc t = pc → pc.Within limit := fun hpc => hpc ▸ hwithin _
  cases moves_of_step (fun t => (hwithin t).below) h with
  | call hidle =>
    obtain rfl := huses
    exact .call hidle
  | callDecrement hidle => exact .callDecrement hidle
  | load hpc =>
    obtain rfl := Option.some.inj (hown hpc)
    exact .load hpc
  | refuse hpc hfull =>
    obtain rfl := hown hpc
    exact .refuse hpc hfull
  | compare hpc hroom =>
    obtain rfl := hown hpc
    exact .compare hpc hroom
  | add hpc =>
    obtain hpc | ⟨l, hpc⟩ := hpc
    · exact absurd (hown hpc) (by simp [Pc.Within])
    · obtain ⟨rfl, hroom⟩ := hown hpc
      exact .acquire hpc hroom
  | overflow hpc => exact absurd (hown hpc) (by simp [Pc.Within])
  | retry hpc =>
    obtain ⟨rfl, -⟩ := hown hpc
    exact .retry hpc
  | release hpc hpos => exact .release hpc hpos
  | saturate hpc hzero => exact .saturate hpc hzero
  | read hpc => exact .read hpc

/-- Threads stay within the limit. -/
theorem LimitedStep.within {limit : UInt64} {s s' : State ι} {e : Event ι} {out : List (Obs ι)}
    (h : LimitedStep limit s e s' out) (hwithin : ∀ t, (s.pc t).Within limit) (u : ι) :
    (s'.pc u).Within limit := by
  cases h <;> rw [State.goto_pc] <;> split
  case compare.isTrue hroom _ => exact ⟨rfl, hroom⟩
  all_goals first | rfl | trivial | exact hwithin u

/-- What holds after every run of limited threads. -/
structure Conserved (limit : UInt64) (s : State ι) (tr : List (Obs ι)) : Prop where
  within : ∀ t, (s.pc t).Within limit
  bounded : s.inner.toNat ≤ limit.toNat
  balanced : s.inner.toNat + (released tr).length = (succeeded tr).length

/-- A decrement that finds the count positive lowers it by one. -/
theorem toNat_sub_one {v : UInt64} (h : v ≠ 0) : (v - 1).toNat + 1 = v.toNat := by
  have hpos : (1 : UInt64).toNat ≤ v.toNat :=
    Nat.one_le_iff_ne_zero.2 (fun h0 => h (UInt64.toNat_inj.1 h0))
  rw [UInt64.toNat_sub_of_le _ _ (UInt64.le_iff_toNat_le.2 hpos)]
  exact Nat.sub_add_cancel hpos

/-- Every limited step conserves the count. -/
theorem LimitedStep.conserved {limit : UInt64} {s s' : State ι} {e : Event ι} {tr out : List (Obs ι)}
    (h : LimitedStep limit s e s' out) (hc : Conserved limit s tr) :
    Conserved limit s' (tr ++ out) := by
  have hbounded := hc.bounded
  have hbalanced := hc.balanced
  refine ⟨h.within hc.within, ?_, ?_⟩
  · cases h
    case acquire t ht hroom =>
      have hnext := toNat_add_one_of_lt hroom
      have hlt := UInt64.lt_iff_toNat_lt.1 hroom
      simp only [State.goto_inner, State.store_inner, hnext]
      omega
    case release t ht hpos =>
      have hprev := toNat_sub_one hpos
      simp only [State.goto_inner, State.store_inner]
      omega
    all_goals exact hbounded
  · cases h <;> simp only [succeeded_append, released_append, List.length_append]
    case acquire t ht hroom =>
      have hnext := toNat_add_one_of_lt hroom
      simp [succeeded, released, hnext] at hbalanced ⊢
      omega
    case release t ht hpos =>
      have hprev := toNat_sub_one hpos
      simp [succeeded, released] at hbalanced ⊢
      omega
    -- the other steps succeed at nothing and give nothing back
    all_goals exact hbalanced

/-- A move between other points of a call does not change who is about to update. -/
theorem State.updating_goto_iff {s : State ι} {t : ι} {pc : Pc} (ht : s.pc t ≠ .updating)
    (hpc : pc ≠ .updating) (u : ι) : (s.goto t pc).pc u = .updating ↔ s.pc u = .updating := by
  rw [goto_pc]
  split
  · next hu =>
    rw [hu]
    exact iff_of_false hpc ht
  · rfl

/-- What holds while threads only give back what they own. -/
structure Owned (s : State ι) (tr : List (Obs ι)) : Prop where
  unsaturated : saturated tr = []
  called : ∀ t, (releasing tr).count t =
    (released tr).count t + if s.pc t = .updating then 1 else 0
  covered : ∀ t, (releasing tr).count t ≤ (succeeded tr).count t

/-- A thread about to lower the count has a success of its own to give back, so some success
is not yet given back. -/
theorem Owned.released_lt {s : State ι} {tr : List (Obs ι)} (h : Owned s tr) {t : ι}
    (hpc : s.pc t = .updating) : (released tr).length < (succeeded tr).length := by
  have hsub : (t :: released tr).Subperm (succeeded tr) := by
    rw [List.subperm_ext_iff]
    intro u _
    have hcalled := h.called u
    have hcovered := h.covered u
    by_cases hu : u = t
    · rw [hu, hpc, if_pos rfl] at hcalled
      rw [hu] at hcovered ⊢
      rw [List.count_cons_self]
      omega
    · rw [List.count_cons_of_ne (Ne.symm hu)]
      omega
  exact hsub.length_le

/-- Every limited step that gives back only what its thread owns keeps the threads' accounts. -/
theorem LimitedStep.owned {limit : UInt64} {s s' : State ι} {e : Event ι} {tr out : List (Obs ι)}
    (h : LimitedStep limit s e s' out) (hc : Conserved limit s tr) (ho : Owned s tr)
    (hown : OwnRelease tr e) : Owned s' (tr ++ out) := by
  have hpositive : ∀ t, s.pc t = .updating → s.inner ≠ 0 := by
    intro t ht hzero
    have hlt := ho.released_lt ht
    have hbalanced := hc.balanced
    rw [hzero] at hbalanced
    simp at hbalanced
    omega
  refine ⟨?_, ?_, ?_⟩
  · cases h <;> rw [saturated_append, ho.unsaturated]
    case saturate t ht hzero => exact absurd hzero (hpositive t ht)
    all_goals rfl
  · intro u
    have hcalled := ho.called u
    cases h <;> simp only [releasing_append, released_append, List.count_append]
    case callDecrement t ht | release t ht _ =>
      by_cases hu : t = u
      · subst hu
        rw [ht] at hcalled
        simpa [State.goto_pc, releasing, released] using hcalled
      · simpa [State.goto_pc, releasing, released, hu, Ne.symm hu] using hcalled
    case saturate t ht hzero => exact absurd hzero (hpositive t ht)
    all_goals simpa [State.updating_goto_iff, ‹s.pc _ = _›, releasing, released] using hcalled
  · intro u
    have hcovered := ho.covered u
    cases h <;> simp only [releasing_append, succeeded_append, List.count_append]
    case callDecrement t ht =>
      have hlt : (releasing tr).count t < (succeeded tr).count t := hown
      by_cases hu : t = u
      · subst hu
        simpa [releasing, succeeded, Nat.succ_le_iff] using hlt
      · simpa [releasing, succeeded, hu] using hcovered
    all_goals exact Nat.le_add_right_of_le hcovered

/-- A thread has seen no more than `count`, and is not about to lower it. -/
def Pc.SeenAtMost (count : UInt64) : Pc → Prop
  | .comparing _ current => current ≤ count
  | .exchanging _ current => current ≤ count
  | .updating => False
  | _ => True

/-- A thread has also seen no more than a larger count. -/
theorem Pc.SeenAtMost.mono {pc : Pc} {count next : UInt64} (h : pc.SeenAtMost count)
    (hle : count ≤ next) : pc.SeenAtMost next := by
  cases pc with
  | comparing limit current => exact UInt64.le_trans h hle
  | exchanging limit current => exact UInt64.le_trans h hle
  | updating => exact h
  | _ => trivial

/-- What holds while the count only grows: refusals begin when the limit is reached. -/
structure Filling (limit : UInt64) (s : State ι) (tr : List (Obs ι)) : Prop where
  seen : ∀ t, (s.pc t).SeenAtMost s.inner
  kept : released tr = []
  refused : (completed tr).length = (succeeded tr).length ∨
    (succeeded tr).length ≤ (completed tr).length ∧ limit ≤ s.inner

omit [DecidableEq ι] in
/-- No thread of a filling counter is about to lower it. -/
theorem Filling.not_updating {limit : UInt64} {s : State ι} {tr : List (Obs ι)}
    (h : Filling limit s tr) (t : ι) : s.pc t ≠ .updating := by
  intro ht
  have hseen := h.seen t
  rw [ht] at hseen
  exact hseen

/-- Every limited step but a call of `decrement` keeps filling the counter. -/
theorem LimitedStep.filling {limit : UInt64} {s s' : State ι} {e : Event ι} {tr out : List (Obs ι)}
    (h : LimitedStep limit s e s' out) (hf : Filling limit s tr) (hno : NoDecrement e) :
    Filling limit s' (tr ++ out) := by
  have hseen := hf.seen
  have hrefused := hf.refused
  refine ⟨?_, ?_, ?_⟩
  · intro u
    cases h <;> rw [State.goto_pc] <;> split
    case load.isTrue => exact UInt64.le_refl s.inner
    case compare.isTrue t current ht hroom hu =>
      have ht' := hseen t
      rw [ht] at ht'
      exact ht'
    case acquire.isFalse t ht hroom hu =>
      have hnext := toNat_add_one_of_lt hroom
      apply (hseen u).mono
      rw [UInt64.le_iff_toNat_le, State.goto_inner, State.store_inner, hnext]
      exact Nat.le_succ _
    case release.isFalse t ht hpos hu => exact absurd ht (hf.not_updating t)
    case callDecrement.isTrue => exact hno.elim
    all_goals first | trivial | exact hseen u
  · cases h <;> rw [released_append, hf.kept]
    case release t ht hpos => exact absurd ht (hf.not_updating t)
    all_goals rfl
  · cases h <;> simp only [completed_append, succeeded_append, List.length_append]
    case refuse t current ht hfull =>
      have ht' : current ≤ s.inner := by
        have ht' := hseen t
        rw [ht] at ht'
        exact ht'
      right
      refine ⟨?_, UInt64.le_trans hfull ht'⟩
      simp [completed, succeeded] at hrefused ⊢
      omega
    case acquire t ht hroom =>
      have hnext := toNat_add_one_of_lt hroom
      simp only [UInt64.le_iff_toNat_le, State.goto_inner, State.store_inner, hnext] at hrefused ⊢
      simp [completed, succeeded] at hrefused ⊢
      omega
    case release t ht hpos => exact absurd ht (hf.not_updating t)
    all_goals exact hrefused

variable {overflowChecks : Bool} {limit : UInt64} {es : List (Event ι)} {s : State ι}
  {tr : List (Obs ι)}

omit [DecidableEq ι] in
/-- A new counter conserves the empty trace. -/
theorem conserved_new (limit : UInt64) : Conserved limit (new : State ι) [] :=
  ⟨fun _ => trivial, Nat.zero_le _, rfl⟩

/-- The count is conserved by every run of limited threads. -/
theorem conserved_of_run (hlimit : ∀ e ∈ es, UsesLimit limit e)
    (hrun : (machine ι overflowChecks).run es (new, []) = some (s, tr)) : Conserved limit s tr :=
  Machine.run_induct (P := Conserved limit) (G := fun _ _ e => UsesLimit limit e)
    (fun _ _ _ _ _ hc huses he => (limitedStep_of_step hc.within huses he).conserved hc)
    hrun (Machine.meets_of_forall (fun e he _ _ => hlimit e he) _) (conserved_new limit)

/-- The threads' accounts balance in every run in which they give back what they own. -/
theorem owned_of_run (hlimit : ∀ e ∈ es, UsesLimit limit e)
    (hrun : (machine ι overflowChecks).run es (new, []) = some (s, tr))
    (hown : (machine ι overflowChecks).Meets (fun _ tr e => OwnRelease tr e) es (new, [])) :
    Owned s tr := by
  have hmeets := (Machine.meets_of_forall (m := machine ι overflowChecks)
    (G := fun _ _ e => UsesLimit limit e) (fun e he _ _ => hlimit e he) (new, [])).and hown
  have hboth := Machine.run_induct (P := fun s tr => Conserved limit s tr ∧ Owned s tr)
    (fun s tr e s' out hP hG he => by
      have hstep := limitedStep_of_step hP.1.within hG.1 he
      exact ⟨hstep.conserved hP.1, hstep.owned hP.1 hP.2 hG.2⟩)
    hrun hmeets ⟨conserved_new limit, ⟨rfl, fun _ => rfl, fun _ => Nat.le_refl 0⟩⟩
  exact hboth.2

/-- Without decrements the counter only fills. -/
theorem filling_of_run (hlimit : ∀ e ∈ es, UsesLimit limit e) (hno : ∀ e ∈ es, NoDecrement e)
    (hrun : (machine ι overflowChecks).run es (new, []) = some (s, tr)) : Filling limit s tr := by
  have hboth := Machine.run_induct (P := fun s tr => Conserved limit s tr ∧ Filling limit s tr)
    (G := fun _ _ e => UsesLimit limit e ∧ NoDecrement e)
    (fun s tr e s' out hP hG he => by
      have hstep := limitedStep_of_step hP.1.within hG.1 he
      exact ⟨hstep.conserved hP.1, hstep.filling hP.2 hG.2⟩)
    hrun (Machine.meets_of_forall (fun e he _ _ => ⟨hlimit e he, hno e he⟩) _)
    ⟨conserved_new limit, ⟨fun _ => trivial, rfl, Or.inl rfl⟩⟩
  exact hboth.2

/-- When every increment passes `limit`, the count never exceeds it and never wraps, whatever the
threads give back. If each gives back only its own successes, no decrement saturates, and the
count returns to zero with the last one. Without decrements, exactly the first `limit` increments
that return succeed. -/
theorem count_conserved (overflowChecks : Bool) (limit : UInt64) {es : List (Event ι)}
    {s : State ι} {tr : List (Obs ι)} (hlimit : ∀ e ∈ es, UsesLimit limit e)
    (hrun : (machine ι overflowChecks).run es (new, []) = some (s, tr)) :
    s.inner ≤ limit ∧
    s.inner.toNat + (released tr).length = (succeeded tr).length ∧
    ((machine ι overflowChecks).Meets (fun _ tr e => OwnRelease tr e) es (new, []) →
      saturated tr = [] ∧ (∀ t, (released tr).count t ≤ (succeeded tr).count t) ∧
      ((∀ t, (released tr).count t = (succeeded tr).count t) → s.inner = 0)) ∧
    ((∀ e ∈ es, NoDecrement e) →
      (succeeded tr).length = min (completed tr).length limit.toNat) := by
  have hc := conserved_of_run hlimit hrun
  have hbounded := hc.bounded
  have hbalanced := hc.balanced
  refine ⟨UInt64.le_iff_toNat_le.2 hbounded, hbalanced, ?_, ?_⟩
  · intro hown
    have ho := owned_of_run hlimit hrun hown
    refine ⟨ho.unsaturated, ?_, ?_⟩
    · intro t
      have hcalled := ho.called t
      have hcovered := ho.covered t
      omega
    · intro hall
      have hperm := List.perm_iff_count.2 hall
      have hlength := hperm.length_eq
      apply UInt64.toNat_inj.1
      rw [UInt64.toNat_zero]
      omega
  · intro hno
    have hf := filling_of_run hlimit hno hrun
    have hrefused := hf.refused
    rw [hf.kept, List.length_nil, Nat.add_zero] at hbalanced
    rw [UInt64.le_iff_toNat_le] at hrefused
    omega

/-- Two threads race for the last place: one loses the exchange and is refused, the other gives
its place back. -/
def raceForOne (t u : ι) : List (Event ι) :=
  [.increment t (some 1), .increment u (some 1), .advance t, .advance u, .advance t, .advance u,
    .advance t, .advance u, .advance u, .advance u, .decrement t, .advance t, .advance t]

/-- The race leaves the counter at zero. -/
theorem count_conserved_race : ∃ s tr,
    (machine (Fin 2) true).run (raceForOne 0 1) (new, []) = some (s, tr) ∧ succeeded tr = [0] ∧
      completed tr = [0, 1] ∧ released tr = [0] ∧ saturated tr = [] ∧ s.inner = 0 := by
  have hlimit : ∀ e ∈ raceForOne (0 : Fin 2) 1, UsesLimit 1 e := by decide
  refine ⟨_, _, rfl, rfl, rfl, rfl, ?_, ?_⟩
  · exact ((count_conserved true 1 hlimit rfl).2.2.1 (by decide)).1
  · exact ((count_conserved true 1 hlimit rfl).2.2.1 (by decide)).2.2 (by decide)

end WsKit.ConnectionCounter
