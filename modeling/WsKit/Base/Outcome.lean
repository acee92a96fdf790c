import Mathlib.Data.List.Forall2
import Mathlib.Data.UInt

/-!
# Results of code that may panic

A call returns a value, returns one of its declared errors, or panics. Integer overflow
panics only in builds that check arithmetic; other builds wrap.
-/

namespace Base

/-- Why a call produced no value. -/
inductive Fault (ε : Type*) where
  | panicked
  | failed (error : ε)
  deriving DecidableEq

/-- The result of a call with errors `ε` and values `α`. -/
abbrev Outcome (ε α : Type*) := Except (Fault ε) α

namespace Outcome

variable {ε α : Type*}

/-- An indexing operation, which panics where it has no result. -/
def orPanic : Option α → Outcome ε α
  | some value => .ok value
  | none => .error .panicked

/-- An operation whose absence of a result is the declared error. -/
def orFail (error : ε) : Option α → Outcome ε α
  | some value => .ok value
  | none => .error (.failed error)

/-- A value returned by the call. -/
@[simp] theorem orPanic_some (value : α) : (orPanic (some value) : Outcome ε α) = .ok value := rfl

@[simp] theorem orFail_some (error : ε) (value : α) : orFail error (some value) = .ok value := rfl

@[simp] theorem orFail_none (error : ε) : (orFail error none : Outcome ε α) = .error (.failed error) := rfl

theorem orFail_eq_ok_iff {error : ε} {o : Option α} {value : α} :
    (orFail error o : Outcome ε α) = .ok value ↔ o = some value := by
  cases o <;> simp [orFail]

theorem orFail_eq_error_iff {error : ε} {o : Option α} {fault : Fault ε} :
    (orFail error o : Outcome ε α) = .error fault ↔ o = none ∧ fault = .failed error := by
  cases o <;> simp [orFail, eq_comm]

/-- A sequence returns what its second call returns after its first one. -/
theorem bind_eq_ok_iff {β : Type*} {x : Outcome ε α} {f : α → Outcome ε β} {value : β} :
    x.bind f = .ok value ↔ ∃ a, x = .ok a ∧ f a = .ok value := by
  cases x <;> simp [Except.bind]

/-- A sequence fails where either of its calls does. -/
theorem bind_eq_error_iff {β : Type*} {x : Outcome ε α} {f : α → Outcome ε β} {fault : Fault ε} :
    x.bind f = .error fault ↔ x = .error fault ∨ ∃ a, x = .ok a ∧ f a = .error fault := by
  cases x <;> simp [Except.bind]

/-- A traversal returns what its calls return, one by one. -/
theorem mapM_eq_ok_iff {α β : Type} {f : α → Outcome ε β} {xs : List α} {ys : List β} :
    xs.mapM f = .ok ys ↔ List.Forall₂ (fun x y => f x = .ok y) xs ys := by
  induction xs generalizing ys with
  | nil =>
    rw [List.mapM_nil, List.forall₂_nil_left_iff, eq_comm]
    exact ⟨Except.ok.inj, congrArg Except.ok⟩
  | cons x xs ih =>
    rw [List.mapM_cons, List.forall₂_cons_left_iff]
    refine bind_eq_ok_iff.trans ?_
    constructor
    · rintro ⟨y, hy, hrest⟩
      obtain ⟨zs, hzs, heq⟩ := bind_eq_ok_iff.1 hrest
      exact ⟨y, zs, hy, ih.1 hzs, (Except.ok.inj heq).symm⟩
    · rintro ⟨y, zs, hy, hzs, rfl⟩
      exact ⟨y, hy, bind_eq_ok_iff.2 ⟨zs, ih.2 hzs, rfl⟩⟩

/-- A traversal whose calls all return does so too. -/
theorem exists_mapM_eq_ok {α β : Type} {f : α → Outcome ε β} (h : ∀ x, ∃ y, f x = .ok y)
    (xs : List α) : ∃ ys, xs.mapM f = .ok ys := by
  induction xs with
  | nil => exact ⟨[], rfl⟩
  | cons x xs ih =>
    obtain ⟨y, hy⟩ := h x
    obtain ⟨ys, hys⟩ := ih
    exact ⟨y :: ys, mapM_eq_ok_iff.2 (.cons hy (mapM_eq_ok_iff.1 hys))⟩

/-- The addition `a + b` on `u64`, in a build with or without overflow checks. -/
def addU64 (overflowChecks : Bool) (a b : UInt64) : Outcome ε UInt64 :=
  if overflowChecks ∧ 2 ^ 64 ≤ a.toNat + b.toNat then .error .panicked else .ok (a + b)

/-- The multiplication `a * b` on `u64`, in a build with or without overflow checks. -/
def mulU64 (overflowChecks : Bool) (a b : UInt64) : Outcome ε UInt64 :=
  if overflowChecks ∧ 2 ^ 64 ≤ a.toNat * b.toNat then .error .panicked else .ok (a * b)

/-- An addition that fits is exact in every build. -/
theorem addU64_of_lt (overflowChecks : Bool) {a b : UInt64} (h : a.toNat + b.toNat < 2 ^ 64) :
    (addU64 overflowChecks a b : Outcome ε UInt64) = .ok (a + b) ∧
      (a + b).toNat = a.toNat + b.toNat := by
  constructor
  · rw [addU64, if_neg (fun hp => absurd hp.2 (by omega))]
  · rw [UInt64.toNat_add, Nat.mod_eq_of_lt h]

/-- An addition that does not panic wraps. -/
theorem eq_of_addU64_eq_ok {overflowChecks : Bool} {a b c : UInt64}
    (h : (addU64 overflowChecks a b : Outcome ε UInt64) = .ok c) : c = a + b := by
  rw [addU64] at h
  split at h <;> cases h
  rfl

/-- An addition that panics does not fit. -/
theorem le_of_addU64_eq_error {overflowChecks : Bool} {a b : UInt64} {fault : Fault ε}
    (h : (addU64 overflowChecks a b : Outcome ε UInt64) = .error fault) :
    2 ^ 64 ≤ a.toNat + b.toNat := by
  rw [addU64] at h
  split at h
  · next hfull => exact hfull.2
  · cases h

theorem panicked_of_addU64_eq_error {overflowChecks : Bool} {a b : UInt64} {fault : Fault ε}
    (h : (addU64 overflowChecks a b : Outcome ε UInt64) = .error fault) : fault = .panicked := by
  rw [addU64] at h
  split at h <;> cases h
  rfl

/-- A multiplication that does not panic wraps. -/
theorem mulU64_cases (overflowChecks : Bool) (a b : UInt64) :
    (mulU64 overflowChecks a b : Outcome ε UInt64) = .ok (a * b) ∨
      (mulU64 overflowChecks a b : Outcome ε UInt64) = .error .panicked := by
  rw [mulU64]
  split
  · exact .inr rfl
  · exact .inl rfl

end Outcome

end Base
