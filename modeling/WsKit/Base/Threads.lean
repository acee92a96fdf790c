import Mathlib.Algebra.BigOperators.Group.Finset.Basic
import Mathlib.Data.Fintype.Basic

/-!
# Sums over threads

What all threads together owe changes only by the thread that moves.
-/

namespace Base

/-- A sum over threads splits into what one thread adds at each of its points and the rest. -/
theorem exists_sum_update {ι π : Type*} [Fintype ι] [DecidableEq ι] (f : π → ℕ) (pc : ι → π)
    (t : ι) : ∃ others, ∑ u, f (pc u) = others + f (pc t) ∧
      ∀ p, ∑ u, f (Function.update pc t p u) = others + f p := by
  refine ⟨∑ u ∈ Finset.univ.erase t, f (pc u), ?_, fun p => ?_⟩
  · rw [Finset.sum_erase_add _ _ (Finset.mem_univ t)]
  · have hrest : ∑ u ∈ Finset.univ.erase t, f (Function.update pc t p u) =
        ∑ u ∈ Finset.univ.erase t, f (pc u) := by
      refine Finset.sum_congr rfl fun u hu => ?_
      rw [Function.update_of_ne (Finset.ne_of_mem_erase hu)]
    rw [← Finset.sum_erase_add _ _ (Finset.mem_univ t), hrest, Function.update_self]

end Base
