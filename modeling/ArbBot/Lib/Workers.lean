import Mathlib.Algebra.BigOperators.Group.Finset.Basic
import Mathlib.Algebra.Order.BigOperators.Group.Finset

/-!
# What workers hold together

A family of workers, each of which holds something that can be added up. When one of them moves,
what the others hold together is what it was.
-/

namespace Lib

variable {ι W M : Type*} [Fintype ι] [DecidableEq ι] [AddCommMonoid M]

/-- What the workers hold together, when each holds what `f` says. -/
def load (f : W → M) (workers : ι → W) : M := ∑ k, f (workers k)

/-- One worker's share is its own. -/
theorem load_update (f : W → M) (workers : ι → W) (k : ι) :
    ∃ rest, load f workers = f (workers k) + rest ∧
      ∀ w, load f (Function.update workers k w) = f w + rest := by
  refine ⟨∑ j ∈ Finset.univ.erase k, f (workers j), ?_, fun w => ?_⟩
  · exact (Finset.add_sum_erase _ _ (Finset.mem_univ k)).symm
  · rw [load, ← Finset.add_sum_erase _ _ (Finset.mem_univ k), Function.update_self]
    congr 1
    refine Finset.sum_congr rfl fun j hj => ?_
    rw [Function.update_of_ne (Finset.ne_of_mem_erase hj)]

/-- A move that keeps the worker's share keeps the load. -/
theorem load_update_of_eq {f : W → M} {workers : ι → W} {k : ι} {w : W}
    (h : f w = f (workers k)) : load f (Function.update workers k w) = load f workers := by
  obtain ⟨rest, hbefore, hafter⟩ := load_update f workers k
  rw [hafter, hbefore, h]

omit [DecidableEq ι] in
theorem load_eq_zero {f : W → M} {workers : ι → W} (h : ∀ k, f (workers k) = 0) :
    load f workers = 0 := Finset.sum_eq_zero fun k _ => h k

omit [DecidableEq ι] in
/-- What each worker holds at most bounds what they hold together. -/
theorem load_le {f : W → Nat} {most : Nat} (workers : ι → W) (h : ∀ w, f w ≤ most) :
    load f workers ≤ Fintype.card ι * most := by
  calc load f workers ≤ ∑ _k : ι, most := Finset.sum_le_sum fun k _ => h (workers k)
    _ = Fintype.card ι * most := by simp

end Lib
