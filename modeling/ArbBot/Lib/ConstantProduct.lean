import Mathlib.Algebra.Group.Nat.Defs
import Mathlib.Tactic.Basic
import Mathlib.Tactic.Ring

/-!
# The constant-product rule

What a pool that keeps the product of its reserves pays for an amount of which the share
`num / den` enters the rule, rounded down, and the amount that pays for a wanted output.
-/

namespace Lib.ConstantProduct

/-- The output of an exact-input swap. -/
def swapOut (num den reserveIn reserveOut amountIn : Nat) : Nat :=
  amountIn * num * reserveOut / (reserveIn * den + amountIn * num)

/-- The input of an exact-output swap, one above the quotient. -/
def swapIn (num den reserveIn reserveOut amountOut : Nat) : Nat :=
  reserveIn * amountOut * den / ((reserveOut - amountOut) * num) + 1

variable {num den reserveIn reserveOut amountIn : Nat}

@[simp] theorem swapOut_zero_amount : swapOut num den reserveIn reserveOut 0 = 0 := by
  simp [swapOut]

@[simp] theorem swapOut_zero_num : swapOut 0 den reserveIn reserveOut amountIn = 0 := by
  simp [swapOut]

/-- A pool never pays out its whole reserve. -/
theorem swapOut_lt (hin : 0 < reserveIn) (hden : 0 < den) (hout : 0 < reserveOut) :
    swapOut num den reserveIn reserveOut amountIn < reserveOut := by
  have hscaled : 0 < reserveIn * den := Nat.mul_pos hin hden
  rw [swapOut, Nat.div_lt_iff_lt_mul (by omega), Nat.mul_comm reserveOut]
  exact Nat.mul_lt_mul_of_pos_right (by omega) hout

/-- The output grows with what enters the rule. -/
theorem swapOut_mono {num' amountIn' : Nat} (h : amountIn * num ≤ amountIn' * num')
    (hin : 0 < reserveIn) (hden : 0 < den) :
    swapOut num den reserveIn reserveOut amountIn ≤
      swapOut num' den reserveIn reserveOut amountIn' := by
  have hscaled : 0 < reserveIn * den := Nat.mul_pos hin hden
  unfold swapOut
  generalize amountIn * num = x at h
  generalize amountIn' * num' = y at h
  obtain ⟨d, rfl⟩ := Nat.exists_eq_add_of_le h
  rw [Nat.le_div_iff_mul_le (by omega)]
  have hquotient : x * reserveOut / (reserveIn * den + x) * (reserveIn * den + x) ≤
      x * reserveOut := Nat.div_mul_le_self _ _
  have hle : x * reserveOut / (reserveIn * den + x) ≤ reserveOut :=
    Nat.div_le_of_le_mul (Nat.mul_le_mul_right _ (by omega))
  calc x * reserveOut / (reserveIn * den + x) * (reserveIn * den + (x + d))
      = x * reserveOut / (reserveIn * den + x) * (reserveIn * den + x) +
          x * reserveOut / (reserveIn * den + x) * d := by ring
    _ ≤ x * reserveOut + reserveOut * d :=
        Nat.add_le_add hquotient (Nat.mul_le_mul_right d hle)
    _ = (x + d) * reserveOut := by ring

/-- A share of one is no share at all. -/
theorem swapOut_same (hnum : 0 < num) :
    swapOut num num reserveIn reserveOut amountIn = swapOut 1 1 reserveIn reserveOut amountIn := by
  unfold swapOut
  rw [show amountIn * num * reserveOut = num * (amountIn * 1 * reserveOut) by ring,
    show reserveIn * num + amountIn * num = num * (reserveIn * 1 + amountIn * 1) by ring,
    Nat.mul_div_mul_left _ _ hnum]

/-! ## What an output costs -/

variable {amountOut : Nat}

theorem le_swapOut_iff (hin : 0 < reserveIn) (hden : 0 < den) :
    amountOut ≤ swapOut num den reserveIn reserveOut amountIn ↔
      amountOut * (reserveIn * den + amountIn * num) ≤ amountIn * num * reserveOut := by
  have hscaled : 0 < reserveIn * den := Nat.mul_pos hin hden
  rw [swapOut, Nat.le_div_iff_mul_le (by omega)]

/-- **An output is paid where the input covers it**, counted in what stays in the pool. -/
theorem le_swapOut_iff_rest (hin : 0 < reserveIn) (hden : 0 < den) (hle : amountOut ≤ reserveOut) :
    amountOut ≤ swapOut num den reserveIn reserveOut amountIn ↔
      amountOut * (reserveIn * den) ≤ amountIn * num * (reserveOut - amountOut) := by
  obtain ⟨rest, rfl⟩ := Nat.exists_eq_add_of_le hle
  rw [le_swapOut_iff hin hden, Nat.add_sub_cancel_left, Nat.mul_add, Nat.mul_add,
    Nat.mul_comm (amountIn * num) amountOut, Nat.add_comm]
  exact Nat.add_le_add_iff_left

/-- What the pool pays, against what stays in it. -/
theorem swapOut_rest (hin : 0 < reserveIn) (hden : 0 < den) (hout : 0 < reserveOut) :
    swapOut num den reserveIn reserveOut amountIn * (reserveIn * den) ≤
      amountIn * num * (reserveOut - swapOut num den reserveIn reserveOut amountIn) :=
  (le_swapOut_iff_rest hin hden (swapOut_lt hin hden hout).le).mp le_rfl

/-- The same with the whole amount in place of its share. -/
theorem swapOut_rest_full (hnum : num ≤ den) (hin : 0 < reserveIn) (hden : 0 < den)
    (hout : 0 < reserveOut) :
    swapOut num den reserveIn reserveOut amountIn * reserveIn ≤
      amountIn * (reserveOut - swapOut num den reserveIn reserveOut amountIn) := by
  have hrest : swapOut num den reserveIn reserveOut amountIn * (reserveIn * den) ≤
      amountIn * num * (reserveOut - swapOut num den reserveIn reserveOut amountIn) :=
    swapOut_rest hin hden hout
  generalize swapOut num den reserveIn reserveOut amountIn = out at *
  apply Nat.le_of_mul_le_mul_right _ hden
  calc out * reserveIn * den = out * (reserveIn * den) := Nat.mul_assoc ..
    _ ≤ amountIn * num * (reserveOut - out) := hrest
    _ ≤ amountIn * den * (reserveOut - out) :=
        Nat.mul_le_mul_right _ (Nat.mul_le_mul_left _ hnum)
    _ = amountIn * (reserveOut - out) * den := by ring

/-- **The product of the reserves never falls.** -/
theorem swapOut_product (hnum : num ≤ den) (hin : 0 < reserveIn) (hden : 0 < den)
    (hout : 0 < reserveOut) :
    reserveIn * reserveOut ≤ (reserveIn + amountIn) *
      (reserveOut - swapOut num den reserveIn reserveOut amountIn) := by
  have hlt : swapOut num den reserveIn reserveOut amountIn < reserveOut := swapOut_lt hin hden hout
  have hrest : swapOut num den reserveIn reserveOut amountIn * reserveIn ≤
      amountIn * (reserveOut - swapOut num den reserveIn reserveOut amountIn) :=
    swapOut_rest_full hnum hin hden hout
  generalize swapOut num den reserveIn reserveOut amountIn = out at *
  obtain ⟨rest, rfl⟩ := Nat.exists_eq_add_of_le hlt.le
  rw [Nat.add_sub_cancel_left] at hrest ⊢
  calc reserveIn * (out + rest) = out * reserveIn + reserveIn * rest := by ring
    _ ≤ amountIn * rest + reserveIn * rest := Nat.add_le_add_right hrest _
    _ = (reserveIn + amountIn) * rest := by ring

/-- **Two swaps in a row pay no more than one of both amounts.** -/
theorem swapOut_split (hnum : num ≤ den) (hin : 0 < reserveIn) (hden : 0 < den)
    (hout : 0 < reserveOut) (a b : Nat) :
    swapOut num den reserveIn reserveOut a +
        swapOut num den (reserveIn + a) (reserveOut - swapOut num den reserveIn reserveOut a) b ≤
      swapOut num den reserveIn reserveOut (a + b) := by
  have hlt : swapOut num den reserveIn reserveOut a < reserveOut := swapOut_lt hin hden hout
  have hfirst := (le_swapOut_iff hin hden).mp
    (le_refl (swapOut num den reserveIn reserveOut a))
  generalize swapOut num den reserveIn reserveOut a = first at *
  obtain ⟨rest, rfl⟩ := Nat.exists_eq_add_of_le hlt.le
  rw [Nat.add_sub_cancel_left]
  have hsecond := (le_swapOut_iff (Nat.add_pos_left hin a) hden).mp
    (le_refl (swapOut num den (reserveIn + a) rest b))
  generalize swapOut num den (reserveIn + a) rest b = second at *
  apply (le_swapOut_iff hin hden).mpr
  -- of the first amount the second swap counts more than the share
  have hfee : reserveIn * den + a * num + b * num ≤ (reserveIn + a) * den + b * num := by
    have hkept := Nat.mul_le_mul_left a hnum
    rw [Nat.add_mul]
    omega
  have hshare : second * (reserveIn * den + a * num + b * num) ≤ b * num * rest :=
    le_trans (Nat.mul_le_mul_left _ hfee) hsecond
  calc (first + second) * (reserveIn * den + (a + b) * num)
      = first * (reserveIn * den + a * num) + first * (b * num) +
          second * (reserveIn * den + a * num + b * num) := by ring
    _ ≤ a * num * (first + rest) + first * (b * num) + b * num * rest :=
        Nat.add_le_add (Nat.add_le_add_right hfirst _) hshare
    _ = (a + b) * num * (first + rest) := by ring

/-! ## Exact outputs -/

/-- **The input asked for pays for the output.** -/
theorem le_swapOut_swapIn (hnum : 0 < num) (hin : 0 < reserveIn) (hden : 0 < den)
    (hlt : amountOut < reserveOut) :
    amountOut ≤ swapOut num den reserveIn reserveOut
      (swapIn num den reserveIn reserveOut amountOut) := by
  have hdivisor : 0 < (reserveOut - amountOut) * num := Nat.mul_pos (by omega) hnum
  apply (le_swapOut_iff_rest hin hden hlt.le).mpr
  calc amountOut * (reserveIn * den) = reserveIn * amountOut * den := by ring
    _ ≤ (reserveOut - amountOut) * num * swapIn num den reserveIn reserveOut amountOut :=
        (Nat.lt_mul_div_succ _ hdivisor).le
    _ = _ := by ring

/-- **An input that pays for the output is at most one below the one asked for.** -/
theorem swapIn_le (hnum : 0 < num) (hin : 0 < reserveIn) (hden : 0 < den)
    (hlt : amountOut < reserveOut) (h : amountOut ≤ swapOut num den reserveIn reserveOut amountIn) :
    swapIn num den reserveIn reserveOut amountOut ≤ amountIn + 1 := by
  have hdivisor : 0 < (reserveOut - amountOut) * num := Nat.mul_pos (by omega) hnum
  have hcovered := (le_swapOut_iff_rest hin hden hlt.le).mp h
  apply Nat.add_le_add_right
  apply (Nat.div_le_iff_le_mul hdivisor).mpr
  calc reserveIn * amountOut * den = amountOut * (reserveIn * den) := by ring
    _ ≤ amountIn * num * (reserveOut - amountOut) := hcovered
    _ = amountIn * ((reserveOut - amountOut) * num) := by ring
    _ ≤ _ := by omega

/-! ## Round trips -/

/-- **Selling back on the updated reserves returns at most the amount.** -/
theorem swapOut_back (hnum : num ≤ den) (hin : 0 < reserveIn) (hden : 0 < den)
    (hout : 0 < reserveOut) :
    swapOut num den (reserveOut - swapOut num den reserveIn reserveOut amountIn)
      (reserveIn + amountIn) (swapOut num den reserveIn reserveOut amountIn) ≤ amountIn := by
  have hlt : swapOut num den reserveIn reserveOut amountIn < reserveOut := swapOut_lt hin hden hout
  have hrest : swapOut num den reserveIn reserveOut amountIn * reserveIn ≤
      amountIn * (reserveOut - swapOut num den reserveIn reserveOut amountIn) :=
    swapOut_rest_full hnum hin hden hout
  generalize swapOut num den reserveIn reserveOut amountIn = mid at *
  have hback :
      swapOut num den (reserveOut - mid) (reserveIn + amountIn) mid < reserveIn + amountIn :=
    swapOut_lt (by omega) hden (Nat.add_pos_left hin amountIn)
  have hpaid := (le_swapOut_iff_rest (show 0 < reserveOut - mid by omega) hden hback.le).mp
    (le_refl (swapOut num den (reserveOut - mid) (reserveIn + amountIn) mid))
  generalize swapOut num den (reserveOut - mid) (reserveIn + amountIn) mid = back at *
  by_contra hmore
  push Not at hmore
  -- more than the amount leaves less than the old reserve behind
  have hcheap : mid * num * (reserveIn + amountIn - back) ≤ mid * reserveIn * den := by
    calc mid * num * (reserveIn + amountIn - back) ≤ mid * den * reserveIn :=
          Nat.mul_le_mul (Nat.mul_le_mul_left _ hnum) (by omega)
      _ = _ := by ring
  have hdear : mid * reserveIn * den < back * ((reserveOut - mid) * den) := by
    calc mid * reserveIn * den ≤ amountIn * (reserveOut - mid) * den :=
          Nat.mul_le_mul_right _ hrest
      _ < back * (reserveOut - mid) * den :=
          Nat.mul_lt_mul_of_pos_right (Nat.mul_lt_mul_of_pos_right hmore (by omega)) hden
      _ = _ := by ring
  omega

/-- **Selling back on the old reserves returns less.** -/
theorem swapOut_back_old (hnum : num ≤ den) (hin : 0 < reserveIn) (hden : 0 < den)
    (hout : 0 < reserveOut) (hamount : 0 < amountIn) :
    swapOut num den reserveOut reserveIn (swapOut num den reserveIn reserveOut amountIn) <
      amountIn := by
  have hlt : swapOut num den reserveIn reserveOut amountIn < reserveOut := swapOut_lt hin hden hout
  have hrest : swapOut num den reserveIn reserveOut amountIn * reserveIn ≤
      amountIn * (reserveOut - swapOut num den reserveIn reserveOut amountIn) :=
    swapOut_rest_full hnum hin hden hout
  generalize swapOut num den reserveIn reserveOut amountIn = mid at *
  have hscaled : 0 < amountIn * (reserveOut * den) :=
    Nat.mul_pos hamount (Nat.mul_pos hout hden)
  by_contra hmore
  push Not at hmore
  have hpaid := (le_swapOut_iff hout hden).mp hmore
  have hcheap : mid * num * reserveIn ≤ amountIn * ((reserveOut - mid) * den) := by
    calc mid * num * reserveIn ≤ mid * den * reserveIn :=
          Nat.mul_le_mul_right _ (Nat.mul_le_mul_left _ hnum)
      _ = mid * reserveIn * den := by ring
      _ ≤ amountIn * (reserveOut - mid) * den := Nat.mul_le_mul_right _ hrest
      _ = _ := by ring
  rcases Nat.eq_zero_or_pos mid with hzero | hpos
  · subst hzero
    simp at hpaid
    omega
  · have hless : amountIn * ((reserveOut - mid) * den) < amountIn * (reserveOut * den) :=
      Nat.mul_lt_mul_of_pos_left (Nat.mul_lt_mul_of_pos_right (by omega) hden) hamount
    rw [Nat.mul_add] at hpaid
    omega

end Lib.ConstantProduct
