import Mathlib.Algebra.Group.Pi.Basic
import Mathlib.Algebra.GroupWithZero.Nat
import Mathlib.Algebra.Order.Group.Nat

/-!
# Flows

What leaves and what enters an account, without subtraction: between two balances there is a flow
of `out` and `inn` when the last with `out` is the first with `inn`. Balances are of any
cancellative commutative monoid; an account in many currencies is a function, whose flows are
pointwise and where `Pi.single c n` is an amount in one of them.

A path of exchanges is a flow of what the first takes and what the last gives: what one gives the
next takes, and it cancels.
-/

namespace Lib

variable {B : Type*} [AddCommMonoid B]

/-- From `before` to `after`, with `out` going and `inn` coming. -/
def Flow (before after out inn : B) : Prop := after + out = before + inn

namespace Flow

variable {a b c out out' inn inn' : B}

protected theorem refl (a x : B) : Flow a a x x := rfl

/-- Both flows at once. -/
protected theorem trans (h : Flow a b out inn) (h' : Flow b c out' inn') :
    Flow a c (out + out') (inn + inn') := by
  unfold Flow at *
  calc c + (out + out') = c + out' + out := by rw [add_comm out out', add_assoc]
    _ = b + out + inn' := by rw [h', add_right_comm]
    _ = a + (inn + inn') := by rw [h, add_assoc]

/-- What comes in on both sides cancels. -/
theorem cancel [IsCancelAdd B] {x : B} (h : Flow a b (out + x) (inn + x)) : Flow a b out inn := by
  unfold Flow at *
  rw [← add_assoc, ← add_assoc] at h
  exact add_right_cancel h

/-- An exchange of `out` for `mid` and one of `mid` for `inn`. -/
theorem through [IsCancelAdd B] {mid : B} (h : Flow a b out mid) (h' : Flow b c mid inn) :
    Flow a c out inn := by
  have hboth := h.trans h'
  rw [add_comm mid inn] at hboth
  exact hboth.cancel

end Flow

/-! ## Accounts in many currencies -/

section Accounts

variable {C : Type*} [DecidableEq C] {before after : C → ℕ} {c d : C} {paid got : ℕ}

/-- What an exchange brought in, read off the balance of what it gives. -/
theorem Flow.gain (h : Flow before after (Pi.single c paid) (Pi.single d got)) (hne : c ≠ d) :
    after d = before d + got := by
  have hd := congrFun h d
  simpa [Pi.single_eq_of_ne hne.symm] using hd

/-- An exchange at a profit costs nothing of what it was paid in exactly when it is given back the
same, or nothing was paid: an amount of something else is no repayment. -/
theorem Flow.le_iff (h : Flow before after (Pi.single c paid) (Pi.single d got))
    (hprofit : paid ≤ got) : before c ≤ after c ↔ d = c ∨ paid = 0 := by
  have hc := congrFun h c
  simp only [Pi.add_apply, Pi.single_eq_same] at hc
  by_cases hsame : d = c
  · subst hsame
    rw [Pi.single_eq_same] at hc
    exact iff_of_true (by omega) (.inl rfl)
  · rw [Pi.single_eq_of_ne (Ne.symm hsame)] at hc
    constructor
    · intro hle
      exact .inr (by omega)
    · intro hfree
      have hzero : paid = 0 := hfree.resolve_left hsame
      omega

end Accounts

end Lib
