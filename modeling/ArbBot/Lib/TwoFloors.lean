import Mathlib.Algebra.Order.Floor.Semifield
import Mathlib.Data.Rat.Floor
import Mathlib.Tactic.Linarith
import Mathlib.Tactic.Ring

/-!
# A product in two rounded steps

An amount times the square of a ratio, computed by two multiplications with the ratio, each of them
rounded down. The first rounding loses less than one unit, which the second multiplication turns
into less than the ratio, and the second rounding loses less than one more.
-/

namespace Lib

section Field

variable {K : Type*} [Field K] [LinearOrder K] [IsStrictOrderedRing K] [FloorSemiring K] {p q : K}

theorem floor_floor_le (hp : 0 ≤ p) (hq : 0 ≤ q) :
    (⌊(⌊p * q⌋₊ : K) * q⌋₊ : K) ≤ p * q * q := by
  have hfirst : (⌊p * q⌋₊ : K) ≤ p * q := Nat.floor_le (mul_nonneg hp hq)
  have hsecond : (⌊(⌊p * q⌋₊ : K) * q⌋₊ : K) ≤ ⌊p * q⌋₊ * q :=
    Nat.floor_le (mul_nonneg (Nat.cast_nonneg _) hq)
  exact hsecond.trans (mul_le_mul_of_nonneg_right hfirst hq)

theorem lt_floor_floor_add (hq : 0 ≤ q) :
    p * q * q < (⌊(⌊p * q⌋₊ : K) * q⌋₊ : K) + (1 + q) := by
  have hfirst : p * q < ⌊p * q⌋₊ + 1 := Nat.lt_floor_add_one _
  have hsecond : (⌊p * q⌋₊ : K) * q < ⌊(⌊p * q⌋₊ : K) * q⌋₊ + 1 := Nat.lt_floor_add_one _
  calc p * q * q ≤ (⌊p * q⌋₊ + 1) * q := mul_le_mul_of_nonneg_right hfirst.le hq
    _ = ⌊p * q⌋₊ * q + q := by ring
    _ < ⌊(⌊p * q⌋₊ : K) * q⌋₊ + 1 + q := by linarith only [hsecond]
    _ = ⌊(⌊p * q⌋₊ : K) * q⌋₊ + (1 + q) := by ring

end Field

/-- An amount times `num / den`, twice, rounded down each time. -/
def scaleTwice (amount num den : Nat) : Nat := amount * num / den * num / den

theorem scaleTwice_eq_floor (amount num den : Nat) :
    scaleTwice amount num den = ⌊(⌊(amount : ℚ) * (num / den)⌋₊ : ℚ) * (num / den)⌋₊ := by
  have hstep : ∀ value : Nat, value * num / den = ⌊(value : ℚ) * (num / den)⌋₊ := fun value => by
    rw [← mul_div_assoc, ← Nat.cast_mul, Nat.floor_div_eq_div]
  rw [scaleTwice, hstep, hstep]

theorem scaleTwice_le (amount num den : Nat) :
    (scaleTwice amount num den : ℚ) ≤ amount * (num / den) * (num / den) := by
  rw [scaleTwice_eq_floor]
  exact floor_floor_le (Nat.cast_nonneg _) (by positivity)

theorem lt_scaleTwice_add (amount num den : Nat) :
    (amount : ℚ) * (num / den) * (num / den) < scaleTwice amount num den + (1 + num / den) := by
  rw [scaleTwice_eq_floor]
  exact lt_floor_floor_add (by positivity)

/-- There and back again loses. -/
theorem scaleTwice_scaleTwice_le (amount : Nat) {num den : Nat} (hnum : 0 < num) (hden : 0 < den) :
    scaleTwice (scaleTwice amount num den) den num ≤ amount := by
  have hden' : (0 : ℚ) < den := Nat.cast_pos.mpr hden
  have hnum' : (0 : ℚ) < num := Nat.cast_pos.mpr hnum
  have hback : (den : ℚ) / num * (den / num) * (num / den * (num / den)) = 1 := by field_simp
  have hle : (scaleTwice (scaleTwice amount num den) den num : ℚ) ≤ amount := by
    calc (scaleTwice (scaleTwice amount num den) den num : ℚ)
        ≤ scaleTwice amount num den * (den / num) * (den / num) := scaleTwice_le _ _ _
      _ = scaleTwice amount num den * (den / num * (den / num)) := by ring
      _ ≤ amount * (num / den) * (num / den) * (den / num * (den / num)) :=
          mul_le_mul_of_nonneg_right (scaleTwice_le _ _ _) (by positivity)
      _ = amount * (den / num * (den / num) * (num / den * (num / den))) := by ring
      _ = amount := by rw [hback, mul_one]
  exact_mod_cast hle

end Lib
