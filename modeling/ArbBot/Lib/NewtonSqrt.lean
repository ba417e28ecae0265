import Mathlib.Tactic.Linarith

/-!
# Newton's step for the square root

On natural numbers, from any positive iterate, the step leads to a number whose successor squared
is beyond the radicand, and the iterate squared is within it where the step does not lead down. So
the last iterate of a descent is the root, and no step on the way adds up to more than the radicand
and one.
-/

namespace Lib

/-- The step: the iterate and the quotient by it, averaged. -/
def newtonSqrt (n x : Nat) : Nat := (x + n / x) / 2

variable {n x : Nat}

/-- **The step does not go below the root**: the average of two factors is at least their root. -/
theorem lt_succ_newtonSqrt_sq (hx : 0 < x) :
    n < (newtonSqrt n x + 1) * (newtonSqrt n x + 1) := by
  have hquot : n < x * (n / x + 1) := Nat.lt_mul_div_succ n hx
  have haverage : x + (n / x + 1) ≤ 2 * (newtonSqrt n x + 1) := by
    unfold newtonSqrt
    omega
  generalize n / x + 1 = q at hquot haverage
  generalize newtonSqrt n x + 1 = y at haverage ⊢
  have hsquare : (x + q) * (x + q) ≤ 2 * y * (2 * y) := Nat.mul_le_mul haverage haverage
  rcases Nat.le_total x q with hle | hle
  · obtain ⟨d, rfl⟩ := Nat.exists_eq_add_of_le hle
    nlinarith only [hquot, hsquare, Nat.zero_le (d * d)]
  · obtain ⟨d, rfl⟩ := Nat.exists_eq_add_of_le hle
    nlinarith only [hquot, hsquare, Nat.zero_le (d * d)]

/-- Where the step does not lead down, the iterate is at most the root. -/
theorem sq_le_of_le_newtonSqrt (hx : 0 < x) (h : x ≤ newtonSqrt n x) : x * x ≤ n := by
  have hquot : x ≤ n / x := by
    unfold newtonSqrt at h
    omega
  exact (Nat.le_div_iff_mul_le hx).mp hquot

theorem newtonSqrt_pos (hx : 0 < x) (hn : 0 < n) : 0 < newtonSqrt n x := by
  unfold newtonSqrt
  rcases Nat.eq_or_lt_of_le (Nat.succ_le_of_lt hx) with rfl | hlt
  · rw [Nat.div_one]
    omega
  · exact Nat.div_pos (Nat.le_trans hlt (Nat.le_add_right x _)) (by decide)

/-- An iterate up to the radicand and the quotient by it add up to at most one more. -/
theorem add_div_le_succ (hx : 0 < x) (hle : x ≤ n) : x + n / x ≤ n + 1 := by
  obtain ⟨k, rfl⟩ := Nat.exists_eq_add_of_lt hx
  have hquot : n / (0 + k + 1) * (0 + k + 1) ≤ n := Nat.div_mul_le_self _ _
  generalize n / (0 + k + 1) = q at hquot ⊢
  rcases Nat.eq_zero_or_pos q with rfl | hq
  · omega
  · obtain ⟨m, rfl⟩ := Nat.exists_eq_add_of_lt hq
    nlinarith only [hquot, Nat.zero_le (m * k)]

end Lib
