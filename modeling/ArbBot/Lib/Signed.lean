import Mathlib.Algebra.Group.Int.Defs
import Mathlib.Algebra.Group.Nat.Defs
import Mathlib.Tactic.Basic

/-!
# Signed machine integers

Signed integers of `w` bits as integers in a range: the results of wrapping and of checked
operations, and the conversions between them and words.
-/

namespace Lib

/-- What a wrapping operation makes of an integer. -/
def wrapInt (w : Nat) (x : Int) : Int := x.bmod (2 ^ w)

/-- What a checked operation makes of an integer. -/
def checkedInt (w : Nat) (x : Int) : Option Int :=
  if -2 ^ (w - 1) ≤ x ∧ x < 2 ^ (w - 1) then some x else none

variable {w : Nat} {x y : Int}

theorem wrapInt_of_range (hlow : -2 ^ (w - 1) ≤ x) (hhigh : x < 2 ^ (w - 1)) (hw : 0 < w) :
    wrapInt w x = x := by
  obtain ⟨n, rfl⟩ : ∃ n, w = n + 1 := ⟨w - 1, by omega⟩
  have hpow : ((2 ^ (n + 1) : Nat) : Int) = 2 * 2 ^ n := by
    rw [Nat.pow_succ]
    push_cast
    exact Int.mul_comm _ _
  rw [Nat.add_sub_cancel] at hlow hhigh
  apply Int.bmod_eq_of_le
  · rw [hpow]
    omega
  · rw [hpow]
    omega

theorem checkedInt_eq_some : checkedInt w x = some y ↔
    x = y ∧ -2 ^ (w - 1) ≤ x ∧ x < 2 ^ (w - 1) := by
  unfold checkedInt
  split
  · rename_i h
    simp [h]
  · rename_i h
    simp [h]

end Lib
