import Mathlib.Tactic.GCongr
import Mathlib.Tactic.Linarith
import Mathlib.Tactic.Ring

/-!
# The stable curve over rounded words

The invariant `x³y + xy³` of a stable pool over amounts in units of `e`, with each product rounded
down. It is monotone in both reserves. A reserve is kept in units of a token that are a multiple of
the units of the curve, so what a pool pays out is a whole number of token units, rounded down, and
what remains is at least the reserve that was solved for.

With four units of the one reserve the rounding is small beside the slope. A step of Newton's method
from above the curve then leaves at most two thirds of the way, and passes the curve by one at most.
-/

namespace Lib

/-- The invariant of a stable pool. -/
def stableCurve (e x y : Nat) : Nat := x * y / e * (x * x / e + y * y / e) / e

variable {e x x' y y' : Nat}

theorem stableCurve_mono (hx : x ≤ x') (hy : y ≤ y') :
    stableCurve e x y ≤ stableCurve e x' y' := by
  unfold stableCurve
  gcongr

/-- A search that moves from point to point until it stops or has used up its rounds: the point
where it ends. -/
def lastPoint (next : Nat → Option Nat) : Nat → Nat → Nat
  | 0, y => y
  | rounds + 1, y => (next y).elim y (lastPoint next rounds)

theorem lastPoint_of_some {next : Nat → Option Nat} (h : next y = some y') (rounds : Nat) :
    lastPoint next (rounds + 1) y = lastPoint next rounds y' := by
  rw [lastPoint, h]
  rfl

theorem lastPoint_of_none {next : Nat → Option Nat} (h : next y = none) (rounds : Nat) :
    lastPoint next rounds y = y := by
  cases rounds with
  | zero => rfl
  | succ rounds =>
    rw [lastPoint, h]
    rfl

/-- What every step keeps holds of the last point. -/
theorem lastPoint_induction {next : Nat → Option Nat} {P : Nat → Prop}
    (hstep : ∀ y y', next y = some y' → P y → P y') (rounds : Nat) (hy : P y) :
    P (lastPoint next rounds y) := by
  induction rounds generalizing y with
  | zero => exact hy
  | succ rounds ih =>
    cases hnext : next y with
    | none => exact (lastPoint_of_none hnext _).symm ▸ hy
    | some y' => exact (lastPoint_of_some hnext _).symm ▸ ih (hstep y y' hnext hy)

/-! ## The exact curve -/

/-- The invariant without rounding, in units of `e ^ 3`, and its slope, in units of `e ^ 2`. -/
def cubic (x y : Nat) : Nat := x * y * (x * x + y * y)

def cubicSlope (x y : Nat) : Nat := x * (x * x + 3 * (y * y))

theorem cubic_mono (h : y ≤ y') : cubic x y ≤ cubic x y' := by
  unfold cubic
  gcongr

/-- Rounding makes the invariant smaller. -/
theorem stableCurve_le_cubic : e ^ 3 * stableCurve e x y ≤ cubic x y := by
  have hproduct : e * (x * y / e) ≤ x * y := Nat.mul_div_le _ _
  have hsquares : e * (x * x / e + y * y / e) ≤ x * x + y * y := by
    rw [Nat.mul_add]
    exact Nat.add_le_add (Nat.mul_div_le _ _) (Nat.mul_div_le _ _)
  have hcurve : e * stableCurve e x y ≤ x * y / e * (x * x / e + y * y / e) := Nat.mul_div_le _ _
  calc e ^ 3 * stableCurve e x y
      = e ^ 2 * (e * stableCurve e x y) := by ring
    _ ≤ e ^ 2 * (x * y / e * (x * x / e + y * y / e)) := Nat.mul_le_mul_left _ hcurve
    _ = e * (x * y / e) * (e * (x * x / e + y * y / e)) := by ring
    _ ≤ cubic x y := Nat.mul_le_mul hproduct hsquares

/-- By so much at most. -/
theorem cubic_lt_stableCurve (he : 0 < e) :
    cubic x y < e ^ 3 * stableCurve e x y + e ^ 3 + e * (x + y) ^ 2 := by
  have hproduct : x * y ≤ e * (x * y / e) + e := (Nat.lt_mul_div_succ _ he).le
  have hproduct' : e * (x * y / e) ≤ x * y := Nat.mul_div_le _ _
  have hsquares : x * x + y * y ≤ e * (x * x / e + y * y / e) + 2 * e := by
    have hx : x * x < e * (x * x / e + 1) := Nat.lt_mul_div_succ _ he
    have hy : y * y < e * (y * y / e + 1) := Nat.lt_mul_div_succ _ he
    linarith only [hx, hy]
  have hcurve : x * y / e * (x * x / e + y * y / e) < e * (stableCurve e x y + 1) :=
    Nat.lt_mul_div_succ _ he
  have hcurve' := Nat.mul_lt_mul_of_pos_left hcurve (Nat.pow_pos he (n := 2))
  generalize hf : stableCurve e x y = f at hcurve hcurve' ⊢
  generalize x * x / e + y * y / e = b at hsquares hcurve hcurve'
  generalize x * y / e = a at hproduct hproduct' hcurve hcurve'
  have hfirst : cubic x y ≤ (e * a + e) * (x * x + y * y) := Nat.mul_le_mul_right _ hproduct
  have hsecond : e * a * (x * x + y * y) ≤ e * a * (e * b + 2 * e) := Nat.mul_le_mul_left _ hsquares
  have hthird : 2 * e * (e * a) ≤ 2 * e * (x * y) := Nat.mul_le_mul_left _ hproduct'
  linarith only [hfirst, hsecond, hthird, hcurve']

/-- Between two points the exact curve rises by the slope at the upper one, less what it bends. -/
theorem cubic_add (x y h : Nat) :
    cubic x (y + h) + h ^ 2 * (x * (2 * (y + h) + y)) = cubic x y + h * cubicSlope x (y + h) := by
  unfold cubic cubicSlope
  ring

/-- A rounded slope is short of the exact one by the rounding of its summands at most. -/
structure RoundsSlope (e x y slope : Nat) : Prop where
  le : e ^ 2 * slope ≤ cubicSlope x y
  ge : cubicSlope x y ≤ e ^ 2 * slope + 4 * x * e + 2 * e ^ 2

/-! ## Steps of Newton's method -/

/-- What a step down falls short of the exact curve by at most, where `s` squared is the unit or
more. -/
def stepRounding (e s x : Nat) : Nat := 4 * e ^ 3 + 8 * x * e * s

/-- **A step down passes the exact curve by its rounding at most.** What the rounded slope is short
of is made up for by the bend of the curve, but for a step of a few roots of the unit. -/
theorem le_cubic_of_step {k h s slope : Nat} (hs : e ≤ s * s) (hx : 0 < x)
    (hslope : RoundsSlope e x (y + h) slope) (habove : k ≤ stableCurve e x (y + h))
    (hstep : h * slope ≤ (stableCurve e x (y + h) - k) * e) :
    k * e ^ 3 ≤ cubic x y + stepRounding e s x := by
  have hlower := stableCurve_le_cubic (e := e) (x := x) (y := y + h)
  have hrise := cubic_add x y h
  have hslopes := Nat.mul_le_mul_left h hslope.ge
  have hscaled := Nat.mul_le_mul_left (e ^ 2) hstep
  have hroot : 4 * (h * e) ≤ h * h * h + 8 * (e * s) := by
    rcases Nat.le_total h (2 * s) with hle | hge
    · have hsmall := Nat.mul_le_mul_left e hle
      linarith only [hsmall, Nat.zero_le (h * h * h)]
    · have hsquare := Nat.mul_le_mul hge hge
      have hlarge : 4 * e * h ≤ h * h * h := Nat.mul_le_mul_right h (by linarith only [hs, hsquare])
      linarith only [hlarge, Nat.zero_le (e * s)]
  have hunit : 2 * (h * e ^ 2) ≤ x * (h * h * h) + 4 * e ^ 3 := by
    rcases Nat.le_total h (2 * e) with hle | hge
    · have hsmall := Nat.mul_le_mul_right (e ^ 2) hle
      linarith only [hsmall, Nat.zero_le (x * (h * h * h))]
    · have hsquare := Nat.mul_le_mul hge hge
      have hlarge := Nat.mul_le_mul_right h hsquare
      have hone := Nat.mul_le_mul_right (h * h * h) hx
      linarith only [hlarge, hone, Nat.zero_le (e ^ 3), Nat.zero_le (h * e ^ 2)]
  have hroot' := Nat.mul_le_mul_left x hroot
  have hbend : h ^ 2 * (x * (2 * h)) ≤ h ^ 2 * (x * (2 * (y + h) + y)) := by
    gcongr
    omega
  unfold stepRounding
  generalize stableCurve e x (y + h) = f at habove hlower hscaled
  obtain ⟨excess, rfl⟩ := Nat.exists_eq_add_of_le habove
  rw [Nat.add_sub_cancel_left] at hscaled
  linarith only [hlower, hrise, hslopes, hscaled, hroot', hunit, hbend]

section Steps

variable {k r slope : Nat} (he : 10 ≤ e) (hx : 4 * e ≤ x)

include hx in
/-- With four units of the one reserve the rounding of the curve is less than half a step. -/
theorem error_le : 8 * (e ^ 3 + e * (x + y) ^ 2) ≤ 3 * cubicSlope x y := by
  have hcube : 64 * e ^ 3 ≤ cubicSlope x y :=
    calc 64 * e ^ 3 = 4 * e * (4 * e * (4 * e)) := by ring
      _ ≤ x * (x * x) := Nat.mul_le_mul hx (Nat.mul_le_mul hx hx)
      _ ≤ cubicSlope x y := Nat.mul_le_mul_left _ (Nat.le_add_right _ _)
  have hsquare : 3 * (x + y) ^ 2 ≤ 4 * (x * x + 3 * (y * y)) := by
    zify
    linarith only [sq_nonneg ((x : Int) - 3 * y)]
  have hscaled : 4 * e * (x * x + 3 * (y * y)) ≤ cubicSlope x y := Nat.mul_le_mul_right _ hx
  have herror := Nat.mul_le_mul_left e hsquare
  linarith only [hcube, herror, hscaled]

include he hx in
theorem slope_pos (hslope : RoundsSlope e x y slope) : 0 < slope := by
  apply Nat.pos_of_ne_zero
  rintro rfl
  have hge := hslope.ge
  have hsquare := Nat.mul_le_mul hx hx
  have hcube : x * (16 * e * e) ≤ cubicSlope x y :=
    Nat.mul_le_mul_left _ (by linarith only [hsquare, Nat.zero_le (y * y)])
  have hten : 10 * (x * e) ≤ e * (x * e) := Nat.mul_le_mul_right _ he
  have hunit : 4 * e * e ≤ x * e := Nat.mul_le_mul_right _ hx
  have hpos : 0 < x * e := Nat.mul_pos (by omega) (by omega)
  linarith only [hge, hcube, hten, hunit, hpos]

include he hx

/-- The rounded curve is strictly increasing. -/
theorem stableCurve_lt_succ (y : Nat) : stableCurve e x y < stableCurve e x (y + 1) := by
  have hlower := stableCurve_le_cubic (e := e) (x := x) (y := y)
  have hupper := cubic_lt_stableCurve (x := x) (y := y + 1) (by omega : 0 < e)
  have hrise := cubic_add x y 1
  have herror := error_le (y := y + 1) hx
  have hsteep : x * (24 * y + 16) ≤ 5 * cubicSlope x (y + 1) := by
    have hten : 10 ≤ x := by omega
    have hsquare := Nat.mul_le_mul hten hten
    calc x * (24 * y + 16)
        ≤ x * (5 * (x * x + 3 * ((y + 1) * (y + 1)))) := by
          refine Nat.mul_le_mul_left _ ?_
          linarith only [hsquare, Nat.zero_le (y * y)]
      _ = 5 * cubicSlope x (y + 1) := by
          unfold cubicSlope
          ring
  apply Nat.lt_of_mul_lt_mul_left (a := e ^ 3)
  linarith only [hlower, hupper, hrise, herror, hsteep]

/-- **From above, a step leaves at most two thirds of the way**, and four thirds of a unit. -/
theorem way_le_of_above {gap : Nat} (hroot : k ≤ stableCurve e x r)
    (hslope : RoundsSlope e x (r + gap) slope) :
    gap ≤ 3 * ((stableCurve e x (r + gap) - k) * e / slope) + 4 := by
  have hpos := slope_pos he hx hslope
  have hstep := Nat.lt_mul_div_succ ((stableCurve e x (r + gap) - k) * e) hpos
  have habove : k ≤ stableCurve e x (r + gap) :=
    hroot.trans (stableCurve_mono (Nat.le_refl _) (Nat.le_add_right _ _))
  have hlower := stableCurve_le_cubic (e := e) (x := x) (y := r)
  have hupper := cubic_lt_stableCurve (x := x) (y := r + gap) (by omega : 0 < e)
  have herror := error_le (y := r + gap) hx
  have hrise : gap * cubicSlope x (r + gap) + 3 * cubic x r ≤ 3 * cubic x (r + gap) := by
    have hbend : 3 * cubic x (r + gap) = gap * cubicSlope x (r + gap) + 3 * cubic x r +
        gap * x * (2 * (x * x) + 3 * ((r + gap) * r + r * r)) := by
      unfold cubic cubicSlope
      ring
    exact hbend ▸ Nat.le_add_right _ _
  have hroot' := Nat.mul_le_mul_left (e ^ 3) hroot
  generalize stableCurve e x (r + gap) = f at hstep habove hupper ⊢
  obtain ⟨excess, rfl⟩ := Nat.exists_eq_add_of_le habove
  rw [Nat.add_sub_cancel_left] at hstep ⊢
  generalize excess * e / slope = step at hstep ⊢
  have hscaled := Nat.mul_lt_mul_of_pos_left hstep (Nat.pow_pos (by omega : 0 < e) (n := 2))
  have hexact := Nat.mul_le_mul_right (step + 1) hslope.le
  have hbound : 8 * gap * cubicSlope x (r + gap) < (24 * step + 33) * cubicSlope x (r + gap) := by
    linarith only [hlower, hupper, herror, hrise, hroot', hscaled, hexact]
  have hless := Nat.lt_of_mul_lt_mul_right hbound
  omega

/-- What the slope loses by rounding is less than what the curve bends. -/
theorem rounding_le_bend (r : Nat) {h : Nat} (hh : 0 < h) :
    (h + 1) * (4 * x * e + 2 * e ^ 2) ≤
      10 * (x * (e * e)) + h ^ 2 * (x * (2 * (r + h) + r)) := by
  have hround : (h + 1) * (9 * e) ≤ 20 * (e * e) + 4 * (h * h * h) := by
    rcases Nat.le_total h e with hle | hle
    · have hfirst := Nat.mul_le_mul_right e hle
      have hsecond := Nat.mul_le_mul_right e he
      linarith only [hfirst, hsecond, Nat.zero_le (h * h * h)]
    · have hfirst := Nat.mul_le_mul hle (Nat.le_refl h)
      have hsecond : 10 * (e * h) ≤ h * (h * h) :=
        Nat.mul_le_mul (he.trans hle) hfirst
      have hthird := Nat.mul_le_mul_left e hh
      linarith only [hsecond, hthird, Nat.zero_le (e * e)]
  have hsmall : 2 * e ^ 2 * 2 ≤ x * e := by
    have := Nat.mul_le_mul_right e hx
    linarith only [this]
  have hround' := Nat.mul_le_mul_left x hround
  have hsmall' := Nat.mul_le_mul_left (h + 1) hsmall
  have hcubed : h ^ 2 * (x * (2 * h)) ≤ h ^ 2 * (x * (2 * (r + h) + r)) := by
    gcongr
    omega
  linarith only [hround', hsmall', hcubed]

/-- **From above, a step passes the curve by one at most.** -/
theorem step_le_of_above {h : Nat} (hh : 0 < h) (hroot : stableCurve e x r < k)
    (habove : k ≤ stableCurve e x (r + h)) (hslope : RoundsSlope e x (r + h) slope) :
    (stableCurve e x (r + h) - k) * e / slope ≤ h := by
  have hpos := slope_pos he hx hslope
  have hunit : 0 < e := by omega
  have hupper := stableCurve_le_cubic (e := e) (x := x) (y := r + h)
  have hlower := cubic_lt_stableCurve (x := x) (y := r) hunit
  have hrise := cubic_add x r h
  have herror := error_le (y := r) hx
  have hsteeper : cubicSlope x r ≤ cubicSlope x (r + h) := by
    unfold cubicSlope
    gcongr <;> exact Nat.le_add_right _ _
  have hbend := rounding_le_bend he hx r hh
  have hcube : 16 * (x * (e * e)) ≤ cubicSlope x (r + h) :=
    calc 16 * (x * (e * e)) = x * (4 * e * (4 * e)) := by ring
      _ ≤ x * (x * x) := Nat.mul_le_mul_left _ (Nat.mul_le_mul hx hx)
      _ ≤ cubicSlope x (r + h) := Nat.mul_le_mul_left _ (Nat.le_add_right _ _)
  have hslopes := Nat.mul_le_mul_left (h + 1) hslope.ge
  have hroot' := Nat.mul_le_mul_left (e ^ 3) hroot
  rw [← Nat.lt_succ_iff, Nat.div_lt_iff_lt_mul hpos]
  apply Nat.lt_of_mul_lt_mul_left (a := e ^ 2)
  generalize stableCurve e x (r + h) = f at habove hupper ⊢
  obtain ⟨excess, rfl⟩ := Nat.exists_eq_add_of_le habove
  rw [Nat.add_sub_cancel_left, Nat.succ_eq_add_one]
  rw [Nat.succ_eq_add_one, Nat.mul_add] at hroot'
  linarith only [hupper, hlower, hrise, herror, hsteeper, hbend, hcube, hslopes, hroot',
    Nat.zero_le (e ^ 3)]

/-- **From next below the curve, a step is a single one.** -/
theorem step_le_of_below (hroot : stableCurve e x r < k) (habove : k ≤ stableCurve e x (r + 1))
    (hslope : RoundsSlope e x r slope) : (k - stableCurve e x r) * e / slope ≤ 1 := by
  have hpos := slope_pos he hx hslope
  have hunit : 0 < e := by omega
  have hupper := stableCurve_le_cubic (e := e) (x := x) (y := r + 1)
  have hlower := cubic_lt_stableCurve (x := x) (y := r) hunit
  have herror := error_le (y := r) hx
  have hrise : cubic x (r + 1) = cubic x r + cubicSlope x r + x * (3 * r + 1) := by
    unfold cubic cubicSlope
    ring
  have hsteep : x * (24 * r + 8) + 64 * (x * e) + 32 * e ^ 2 ≤ 5 * cubicSlope x r := by
    have hsmall := Nat.mul_le_mul_right e hx
    have hsquare := Nat.mul_le_mul hx hx
    have hten := Nat.mul_le_mul_right e he
    have hround : 24 * r + 8 + 72 * e ≤ 5 * (x * x + 3 * (r * r)) := by
      nlinarith only [hsquare, hten, he, Nat.zero_le (r * r)]
    have hround' := Nat.mul_le_mul_left x hround
    unfold cubicSlope
    linarith only [hsmall, hround']
  have hslopes := hslope.ge
  have habove' := Nat.mul_le_mul_left (e ^ 3) habove
  rw [← Nat.lt_succ_iff, Nat.div_lt_iff_lt_mul hpos]
  apply Nat.lt_of_mul_lt_mul_left (a := e ^ 2)
  generalize stableCurve e x r = f at hroot hlower ⊢
  obtain ⟨deficit, rfl⟩ := Nat.exists_eq_add_of_le hroot.le
  rw [Nat.add_sub_cancel_left]
  linarith only [hupper, hlower, herror, hrise, hsteep, hslopes, habove']

/-- Where a step from above is not rounded to zero, neither is one from higher up. -/
theorem slope_le_excess_succ {slope' : Nat} (habove : k ≤ stableCurve e x y)
    (hslope : RoundsSlope e x y slope) (hslope' : RoundsSlope e x (y + 1) slope')
    (hexcess : slope ≤ (stableCurve e x y - k) * e) :
    slope' ≤ (stableCurve e x (y + 1) - k) * e := by
  have hmono := stableCurve_mono (e := e) (Nat.le_refl x) (Nat.le_succ y)
  have hlower := stableCurve_le_cubic (e := e) (x := x) (y := y)
  have hupper := cubic_lt_stableCurve (x := x) (y := y + 1) (by omega : 0 < e)
  have herror := error_le (y := y + 1) hx
  have hrise := cubic_add x y 1
  have hsteeper : cubicSlope x (y + 1) = cubicSlope x y + 3 * x * (2 * y + 1) := by
    unfold cubicSlope
    ring
  have hsteep : x * (72 * y + 40) + 36 * (x * e) ≤ 5 * cubicSlope x (y + 1) := by
    have hsquare := Nat.mul_le_mul hx hx
    have hten := Nat.mul_le_mul_right e he
    have hround : 72 * y + 40 + 36 * e ≤ 5 * (x * x + 3 * ((y + 1) * (y + 1))) := by
      have hpoint : 14 * y ≤ 5 * (y * y) + 10 := by
        zify
        linarith only [sq_nonneg ((5 : Int) * y - 7)]
      linarith only [hsquare, hten, hpoint, he]
    have hround' := Nat.mul_le_mul_left x hround
    unfold cubicSlope
    linarith only [hround']
  have hsmall := Nat.mul_le_mul_right e hx
  have hexcess' := Nat.mul_le_mul_left (e ^ 2) hexcess
  have hle := hslope'.le
  have hge := hslope.ge
  refine Nat.le_of_mul_le_mul_left ?_ (Nat.pow_pos (by omega : 0 < e) (n := 2))
  generalize stableCurve e x (y + 1) = f' at hmono hupper ⊢
  generalize stableCurve e x y = f at habove hmono hlower hexcess'
  obtain ⟨excess, rfl⟩ := Nat.exists_eq_add_of_le habove
  obtain ⟨rise, rfl⟩ := Nat.exists_eq_add_of_le hmono
  rw [Nat.add_sub_cancel_left] at hexcess'
  rw [Nat.add_assoc k, Nat.add_sub_cancel_left]
  linarith only [hlower, hupper, herror, hrise, hsteeper, hsteep, hsmall, hexcess', hle, hge]

/-- Where a step from next above the curve is not rounded to zero, one from next below is. -/
theorem deficit_lt_slope {slope' : Nat} (hroot : stableCurve e x r < k)
    (habove : k ≤ stableCurve e x (r + 1)) (hslope : RoundsSlope e x r slope)
    (hslope' : RoundsSlope e x (r + 1) slope')
    (hexcess : slope' ≤ (stableCurve e x (r + 1) - k) * e) :
    (k - stableCurve e x r) * e < slope := by
  have hunit : 0 < e := by omega
  have hupper := stableCurve_le_cubic (e := e) (x := x) (y := r + 1)
  have hlower := cubic_lt_stableCurve (x := x) (y := r) hunit
  have herror := error_le (y := r) hx
  have hrise := cubic_add x r 1
  have hsteeper : cubicSlope x (r + 1) = cubicSlope x r + 3 * x * (2 * r + 1) := by
    unfold cubicSlope
    ring
  have hcube : x * (16 * e * e) ≤ cubicSlope x r := by
    have hsquare := Nat.mul_le_mul hx hx
    exact Nat.mul_le_mul_left _ (by linarith only [hsquare, Nat.zero_le (r * r)])
  have hsmall := Nat.mul_le_mul_right e hx
  have hten : x * e * 10 ≤ x * e * e := Nat.mul_le_mul_left _ he
  have hexcess' := Nat.mul_le_mul_left (e ^ 2) hexcess
  have hge := hslope.ge
  have hge' := hslope'.ge
  apply Nat.lt_of_mul_lt_mul_left (a := e ^ 2)
  generalize stableCurve e x (r + 1) = f' at habove hupper hexcess'
  generalize stableCurve e x r = f at hroot hlower ⊢
  obtain ⟨excess, rfl⟩ := Nat.exists_eq_add_of_le habove
  obtain ⟨deficit, rfl⟩ := Nat.exists_eq_add_of_le hroot.le
  rw [Nat.add_sub_cancel_left] at hexcess'
  rw [Nat.add_sub_cancel_left]
  linarith only [hupper, hlower, herror, hrise, hsteeper, hcube, hsmall, hten, hexcess', hge, hge',
    Nat.zero_le (e ^ 3), Nat.zero_le (x * r)]

end Steps

/-! ## A search that closes in -/

section Search

variable {α : Type*} {solve : Nat → Nat → α} {answer : α} {r y n rounds : Nat}
  (hnear : ∀ n y, r ≤ y + 1 → y ≤ r → solve (n + 2) y = answer)
  (habove : ∀ y, r < y → ∃ y', (∀ n, solve (n + 1) y = solve n y') ∧ r ≤ y' + 1 ∧ y' < y ∧
    3 * (y' - r) ≤ 2 * (y - r) + 4)

include hnear habove

/-- From so far above the root a search that takes at least one at a time gets there, or next below
it. -/
theorem answers_of_near (hy : r ≤ y + 1) (hgap : y - r ≤ n) (hrounds : n + 2 ≤ rounds) :
    solve rounds y = answer := by
  induction n generalizing y rounds with
  | zero =>
    obtain ⟨rounds, rfl⟩ := Nat.exists_eq_add_of_le' hrounds
    exact hnear rounds y hy (by omega)
  | succ n ih =>
    obtain ⟨rounds, rfl⟩ := Nat.exists_eq_add_of_le' hrounds
    rcases Nat.lt_or_ge r y with hlt | hle
    · obtain ⟨y', hstep, hclose, hless, -⟩ := habove y hlt
      have hmoved : rounds + (n + 1 + 2) = rounds + (n + 2) + 1 := by omega
      rw [hmoved, hstep]
      exact ih hclose (by omega) (by omega)
    · exact ih hy (by omega) (by omega)

/-- **From any distance, as every step leaves two thirds of it.** -/
theorem answers_of_closing_in (hy : r ≤ y + 1) (hgap : 2 ^ n * (y - r - 4) < 3 ^ n)
    (hrounds : n + 6 ≤ rounds) : solve rounds y = answer := by
  induction n generalizing y rounds with
  | zero => exact answers_of_near hnear habove hy (n := 4) (by omega) (by omega)
  | succ n ih =>
    rcases Nat.lt_or_ge r y with hlt | hle
    · obtain ⟨y', hstep, hclose, -, hthirds⟩ := habove y hlt
      obtain ⟨rounds, rfl⟩ := Nat.exists_eq_add_of_le' hrounds
      have hmoved : rounds + (n + 1 + 6) = rounds + (n + 6) + 1 := by omega
      rw [hmoved, hstep]
      refine ih hclose ?_ (by omega)
      have hway : 3 * (y' - r - 4) ≤ 2 * (y - r - 4) := by omega
      have hscaled := Nat.mul_le_mul_left (2 ^ n) hway
      rw [pow_succ, pow_succ] at hgap
      linarith only [hgap, hscaled]
    · exact answers_of_near hnear habove hy (n := 0) (by omega) (by omega)

end Search

/-! ## Whole units -/

variable {reserve unit : Nat}

/-- What remains of a reserve when the units down to `y` are paid out. -/
theorem remaining_units (reserve : Nat) (hy : y ≤ reserve * unit) :
    (reserve - (reserve * unit - y) / unit) * unit = y + (reserve * unit - y) % unit := by
  have hout : (reserve * unit - y) / unit ≤ reserve :=
    Nat.div_le_of_le_mul (by rw [Nat.mul_comm]; omega)
  have hsplit := Nat.div_add_mod' (reserve * unit - y) unit
  have hpaid := Nat.mul_le_mul_right unit hout
  rw [Nat.sub_mul]
  omega

/-- What is paid out down to `y` is less than the reserve unless `y` is zero. -/
theorem paid_units_lt (hreserve : 0 < reserve) (hunit : 0 < unit) (hy : 0 < y) :
    (reserve * unit - y) / unit < reserve := by
  rw [Nat.div_lt_iff_lt_mul hunit]
  have := Nat.mul_pos hreserve hunit
  omega

end Lib
