import ArbBot.Contracts.V2ArbBot.Swaps
import ArbBot.Laws.Contracts.FullMath
import ArbBot.Lib.StableCurve

/-!
# The stable quote of the bot

`_getAmountOutStable` searches the new reserve by Newton's method in rounded arithmetic, and keeps
the last point of the search whichever side of the curve it is on. The search comes from above, and
a step passes the exact curve by its own rounding at most. The rounded curve is lower, and where a
reserve between the two is short of the invariant by less than the slope the search stops there. So
the quote keeps the invariant where there is no such reserve, and does not where the step from the
next reserve leads to it (`getAmountOutStable_keeps`).
-/

namespace ArbBot.V2ArbBot

open Lib

/-! ## Values -/

theorem toNat_e18 : e18.toNat = 10 ^ 18 := rfl

theorem stableInvariant_eq_some {x y k : U256} (h : stableInvariant x y = some k) :
    k.toNat = stableCurve (10 ^ 18) x.toNat y.toNat := by
  simp only [stableInvariant, Option.bind_eq_bind, Option.bind_eq_some_iff, mulDiv_eq_some,
    checkedAdd_eq_some, toNat_e18] at h
  obtain ⟨product, ⟨-, hproduct⟩, x2, ⟨-, hx2⟩, y2, ⟨-, hy2⟩, sum, hsum, -, hk⟩ := h
  rw [hk, hsum, hproduct, hx2, hy2, stableCurve]

/-- The slope of the invariant at a reserve, rounded. -/
def stableSlope (x y : Nat) : Nat := x * (x * x / 10 ^ 18 + 3 * y * y / 10 ^ 18) / 10 ^ 18

theorem stableDerivative_eq_some {x y d : U256} (h : stableDerivative x y = some d) :
    d.toNat = stableSlope x.toNat y.toNat := by
  simp only [stableDerivative, Option.bind_eq_bind, Option.bind_eq_some_iff, mulDiv_eq_some,
    checkedAdd_eq_some, checkedMul_eq_some, toNat_e18] at h
  obtain ⟨x2, ⟨-, hx2⟩, y3, hy3, y2, ⟨-, hy2⟩, sum, hsum, -, hd⟩ := h
  rw [hd, hsum, hx2, hy2, hy3]
  rfl

theorem exists_mulDiv {a b a' b' d r : U256} (h : mulDiv a b d = some r)
    (ha : a'.toNat ≤ a.toNat) (hb : b'.toNat ≤ b.toNat) :
    ∃ r', mulDiv a' b' d = some r' ∧ r'.toNat ≤ r.toNat := by
  obtain ⟨hd, hr⟩ := mulDiv_eq_some.mp h
  have hle : a'.toNat * b'.toNat / d.toNat ≤ r.toNat :=
    hr ▸ Nat.div_le_div_right (Nat.mul_le_mul ha hb)
  have hfit := hle.trans_lt r.isLt
  refine ⟨BitVec.ofNat 256 (a'.toNat * b'.toNat / d.toNat), mulDiv_eq_some.mpr ⟨hd, ?_⟩, ?_⟩ <;>
    rw [toNat_ofNat_of_lt hfit]
  exact hle

/-- The invariant of a smaller reserve can be computed where that of a larger one can. -/
theorem exists_stableInvariant {x y k : U256} (h : stableInvariant x y = some k) (y' : U256)
    (hy : y'.toNat ≤ y.toNat) : ∃ k', stableInvariant x y' = some k' := by
  simp only [stableInvariant, Option.bind_eq_bind, Option.bind_eq_some_iff] at h
  obtain ⟨product, hproduct, x2, hx2, y2, hy2, sum, hsum, hk⟩ := h
  obtain ⟨product', hproduct', hproductLe⟩ := exists_mulDiv hproduct (Nat.le_refl _) hy
  obtain ⟨y2', hy2', hy2Le⟩ := exists_mulDiv hy2 hy hy
  obtain ⟨sum', hsum', hsumLe⟩ : ∃ sum', checkedAdd x2 y2' = some sum' ∧
      sum'.toNat ≤ sum.toNat := by
    have hvalue := checkedAdd_eq_some.mp hsum
    have hle : x2.toNat + y2'.toNat ≤ sum.toNat := by omega
    have hsumValue : (x2 + y2').toNat = x2.toNat + y2'.toNat :=
      toNat_add_of_lt (hle.trans_lt sum.isLt)
    exact ⟨x2 + y2', checkedAdd_eq_some.mpr hsumValue, hsumValue ▸ hle⟩
  obtain ⟨k', hk', -⟩ := exists_mulDiv hk hproductLe hsumLe
  refine ⟨k', ?_⟩
  simp only [stableInvariant, Option.bind_eq_bind, hproduct', hx2, hy2', hsum', Option.bind_some,
    hk']

/-! ## The search -/

/-- The next point of the search, unless the rounded step is zero. -/
def nextReserve (x k y : Nat) : Option Nat :=
  let f := stableCurve (10 ^ 18) x y
  let step := (if k ≤ f then f - k else k - f) * 10 ^ 18 / stableSlope x y
  if step = 0 then none else some (if k ≤ f then y - step else y + step)

theorem roundsSlope (x y : Nat) : RoundsSlope (10 ^ 18) x y (stableSlope x y) := by
  have he : 0 < 10 ^ 18 := by decide
  unfold stableSlope
  generalize 10 ^ 18 = e at he ⊢
  have hx := Nat.mul_div_le (x * x) e
  have hy := Nat.mul_div_le (3 * y * y) e
  have hx' := Nat.lt_mul_div_succ (x * x) he
  have hy' := Nat.lt_mul_div_succ (3 * y * y) he
  generalize x * x / e = sx at hx hx' ⊢
  generalize 3 * y * y / e = sy at hy hy' ⊢
  have hslope := Nat.mul_div_le (x * (sx + sy)) e
  have hslope' := Nat.lt_mul_div_succ (x * (sx + sy)) he
  generalize x * (sx + sy) / e = slope at hslope hslope' ⊢
  have hsquares := Nat.mul_le_mul_left x (Nat.add_le_add hx hy)
  have hsquares' := Nat.mul_le_mul_left x (Nat.add_le_add hx'.le hy'.le)
  constructor <;> unfold cubicSlope
  · have hscaled := Nat.mul_le_mul_left e hslope
    linarith only [hscaled, hsquares]
  · have hscaled := Nat.mul_le_mul_left e hslope'.le
    linarith only [hscaled, hsquares', Nat.zero_le (x * e), Nat.zero_le (e ^ 2)]

section Search

variable {x k y y' : Nat}

theorem nextReserve_above (habove : k ≤ stableCurve (10 ^ 18) x y) : nextReserve x k y =
    if (stableCurve (10 ^ 18) x y - k) * 10 ^ 18 / stableSlope x y = 0 then none
    else some (y - (stableCurve (10 ^ 18) x y - k) * 10 ^ 18 / stableSlope x y) := by
  simp only [nextReserve, if_pos habove]

theorem nextReserve_below (hbelow : stableCurve (10 ^ 18) x y < k) : nextReserve x k y =
    if (k - stableCurve (10 ^ 18) x y) * 10 ^ 18 / stableSlope x y = 0 then none
    else some (y + (k - stableCurve (10 ^ 18) x y) * 10 ^ 18 / stableSlope x y) := by
  simp only [nextReserve, if_neg (Nat.not_le.mpr hbelow)]

/-- Not below the exact curve by more than the rounding of a step. -/
def Near (x k y : Nat) : Prop :=
  k * (10 ^ 18) ^ 3 ≤ cubic x y + stepRounding (10 ^ 18) (10 ^ 9) x

theorem Near.mono (h : Near x k y) (hy : y ≤ y') : Near x k y' :=
  h.trans (Nat.add_le_add_right (cubic_mono hy) _)

theorem near_of_above (h : k ≤ stableCurve (10 ^ 18) x y) : Near x k y := by
  have hcurve := stableCurve_le_cubic (e := 10 ^ 18) (x := x) (y := y)
  have hscaled := Nat.mul_le_mul_left ((10 ^ 18) ^ 3) h
  rw [Near, Nat.mul_comm]
  exact hscaled.trans (hcurve.trans (Nat.le_add_right _ _))

/-- A step up is towards the curve, and a step down passes it by its rounding at most. -/
theorem Near.step (hnear : Near x k y) (h : nextReserve x k y = some y') : Near x k y' := by
  rcases Nat.lt_or_ge (stableCurve (10 ^ 18) x y) k with hbelow | habove
  · rw [nextReserve_below hbelow] at h
    split at h
    · cases h
    · cases h
      exact hnear.mono (Nat.le_add_right _ _)
  · rw [nextReserve_above habove] at h
    split at h
    · cases h
    rename_i hmoves
    cases h
    have hslope := roundsSlope x y
    have hstep := Nat.div_mul_le_self ((stableCurve (10 ^ 18) x y - k) * 10 ^ 18) (stableSlope x y)
    generalize stableSlope x y = slope at hslope hmoves hstep ⊢
    have hx : 0 < x := by
      rcases Nat.eq_zero_or_pos x with rfl | hpos
      · have hflat : slope = 0 := by simpa [cubicSlope] using hslope.le
        rw [hflat, Nat.div_zero] at hmoves
        exact absurd rfl hmoves
      · exact hpos
    generalize (stableCurve (10 ^ 18) x y - k) * 10 ^ 18 / slope = step at hstep ⊢
    -- a step that would pass zero ends there
    obtain ⟨h, hh, hy⟩ : ∃ h, h ≤ step ∧ y - step + h = y := ⟨min step y, by omega, by omega⟩
    have hrounds : RoundsSlope (10 ^ 18) x (y - step + h) slope := by rwa [hy]
    refine le_cubic_of_step (by decide) hx hrounds ?_ ?_
    · rwa [hy]
    · rw [hy]
      exact (Nat.mul_le_mul_right _ hh).trans hstep

theorem near_lastPoint (rounds : Nat) (h : Near x k y) :
    Near x k (lastPoint (nextReserve x k) rounds y) :=
  lastPoint_induction (fun _ _ hnext hnear => hnear.step hnext) rounds h

/-- The next reserve keeps the invariant, by so much that a step leads down to this one, where it
is short. -/
structure SteppedOver (x k y : Nat) : Prop where
  below : stableCurve (10 ^ 18) x y < k
  above : k ≤ stableCurve (10 ^ 18) x (y + 1)
  excess : stableSlope x (y + 1) ≤ (stableCurve (10 ^ 18) x (y + 1) - k) * 10 ^ 18

variable {r : Nat} (hx : 4 * 10 ^ 18 ≤ x)

include hx

/-- No reserve higher up is a place to stop. -/
theorem SteppedOver.excess_above (h : SteppedOver x k r) (gap : Nat) :
    stableSlope x (r + 1 + gap) ≤ (stableCurve (10 ^ 18) x (r + 1 + gap) - k) * 10 ^ 18 := by
  induction gap with
  | zero => exact h.excess
  | succ gap ih =>
    have habove := h.above.trans
      (stableCurve_mono (Nat.le_refl x) (Nat.le_add_right (r + 1) gap))
    exact slope_le_excess_succ (by decide) hx habove (roundsSlope _ _) (roundsSlope _ _) ih

/-- A step from above closes in on the reserve next above the curve. -/
theorem SteppedOver.step_above (h : SteppedOver x k r) {y : Nat} (hy : r < y) :
    ∃ y', nextReserve x k y = some y' ∧ r ≤ y' ∧ y' < y ∧
      3 * (y' - (r + 1)) ≤ 2 * (y - (r + 1)) + 4 := by
  obtain ⟨gap, rfl⟩ := Nat.exists_eq_add_of_le (Nat.succ_le_of_lt hy)
  have he : 10 ≤ 10 ^ 18 := by decide
  have habove := h.above.trans (stableCurve_mono (Nat.le_refl x) (Nat.le_add_right (r + 1) gap))
  have hslope := roundsSlope x (r + 1 + gap)
  have hmoves := Nat.div_pos (h.excess_above hx gap) (slope_pos he hx hslope)
  have hway := way_le_of_above he hx h.above hslope
  have hpass := step_le_of_above (r := r) (h := 1 + gap) he hx (by omega) h.below
    (by rwa [← Nat.add_assoc]) (by rwa [← Nat.add_assoc])
  rw [← Nat.add_assoc] at hpass
  rw [nextReserve_above habove, if_neg hmoves.ne']
  generalize (stableCurve (10 ^ 18) x (r + 1 + gap) - k) * 10 ^ 18 /
    stableSlope x (r + 1 + gap) = step at *
  exact ⟨_, rfl, by omega, by omega, by omega⟩

/-- The search stops there. -/
theorem SteppedOver.stops (h : SteppedOver x k r) : nextReserve x k r = none := by
  rw [nextReserve_below h.below, if_pos]
  exact Nat.div_eq_of_lt (deficit_lt_slope (by decide) hx h.below h.above (roundsSlope _ _)
    (roundsSlope _ _) h.excess)

/-- **With four units of the other reserve the search ends at a reserve it is stepped over to.** -/
theorem SteppedOver.lastPoint_eq (h : SteppedOver x k r) {y : Nat} (hy : r < y)
    (hword : y < 2 ^ 128) : lastPoint (nextReserve x k) 255 y = r := by
  have hmoves : ∀ z, r < z → ∃ z', (∀ n, lastPoint (nextReserve x k) (n + 1) z =
      lastPoint (nextReserve x k) n z') ∧ r ≤ z' ∧ z' < z ∧
        3 * (z' - (r + 1)) ≤ 2 * (z - (r + 1)) + 4 := fun z hz => by
    obtain ⟨z', hnext, hclose⟩ := h.step_above hx hz
    exact ⟨z', lastPoint_of_some hnext, hclose⟩
  have hstops : ∀ n, lastPoint (nextReserve x k) n r = r := lastPoint_of_none (h.stops hx)
  refine answers_of_closing_in (r := r + 1) (n := 219)
    ?_ ?_ (by omega) ?_ (by decide)
  · intro n z hlow hhigh
    rcases Nat.lt_or_ge r z with hlt | hge
    · obtain ⟨z', hnext, hlow', hless, -⟩ := hmoves z hlt
      obtain rfl : z' = r := by omega
      rw [hnext, hstops]
    · rw [Nat.le_antisymm hge (by omega), hstops]
  · intro z hz
    obtain ⟨z', hnext, hlow, hless, hway⟩ := hmoves z (by omega)
    exact ⟨z', hnext, by omega, hless, hway⟩
  · have hgap : y - (r + 1) - 4 ≤ 2 ^ 128 := by omega
    exact Nat.lt_of_le_of_lt (Nat.mul_le_mul_left _ hgap) (by decide)

end Search

/-! ## The words of the loop -/

/-- The distance from the invariant, on either side of the curve. -/
theorem toNat_distance {x y k f : U256} (hf : stableInvariant x y = some f) :
    (if k ≤ f then f - k else k - f).toNat =
      if k.toNat ≤ stableCurve (10 ^ 18) x.toNat y.toNat then
        stableCurve (10 ^ 18) x.toNat y.toNat - k.toNat
      else k.toNat - stableCurve (10 ^ 18) x.toNat y.toNat := by
  rw [← stableInvariant_eq_some hf]
  by_cases hle : k ≤ f
  · rw [if_pos hle, if_pos (BitVec.le_def.mp hle), BitVec.toNat_sub_of_le hle]
  · rw [if_neg hle, if_neg (mt BitVec.le_def.mpr hle),
      BitVec.toNat_sub_of_le (BitVec.le_of_lt (BitVec.not_le.mp hle))]

/-- A round whose slope rounds to zero ends the search; in a natural number its step is zero. -/
theorem nextReserve_of_flat {x y k : U256} (hslope : stableDerivative x y = some 0) :
    nextReserve x.toNat k.toNat y.toNat = none := by
  rw [nextReserve, ← stableDerivative_eq_some hslope]
  exact if_pos (Nat.div_zero _)

/-- A round with a slope moves by its step, unless that is zero. -/
theorem nextReserve_of_step {x y k f slope step : U256} (hf : stableInvariant x y = some f)
    (hslope : stableDerivative x y = some slope)
    (hstep : mulDiv (if k ≤ f then f - k else k - f) e18 slope = some step) :
    nextReserve x.toNat k.toNat y.toNat =
      if step = 0 then none
      else some (if k ≤ f then y.toNat - step.toNat else y.toNat + step.toNat) := by
  have hvalue := (mulDiv_eq_some.mp hstep).2
  rw [toNat_distance hf, toNat_e18, stableDerivative_eq_some hslope] at hvalue
  have hzero : step = 0 ↔ step.toNat = 0 := BitVec.toNat_inj.symm
  rw [nextReserve, ← hvalue]
  simp only [hzero, BitVec.le_def, stableInvariant_eq_some hf]

/-- The loop ends at the last point of the search. -/
theorem stableLoop_eq_some {x1 k last : U256} (rounds : Nat) : ∀ {y : U256},
    stableLoop x1 k rounds y = some last →
      last.toNat = lastPoint (nextReserve x1.toNat k.toNat) rounds y.toNat := by
  induction rounds with
  | zero =>
    intro y h
    cases h
    rfl
  | succ rounds ih =>
    intro y h
    simp only [stableLoop, Option.bind_eq_bind, Option.bind_eq_some_iff] at h
    obtain ⟨f, hf, slope, hslope, h⟩ := h
    rw [lastPoint]
    split at h
    · rename_i hflat
      cases h
      rw [nextReserve_of_flat (hflat ▸ hslope)]
      rfl
    obtain ⟨step, hstep, h⟩ := Option.bind_eq_some_iff.mp h
    rw [nextReserve_of_step hf hslope hstep]
    split at h
    · rename_i hstop
      cases h
      rw [if_pos hstop]
      rfl
    rename_i hmoves
    rw [if_neg hmoves, Option.elim_some]
    split at h
    · -- above the curve, down to zero at most
      rename_i hle
      rw [if_pos hle, ih h]
      congr 1
      by_cases hlt : step < y
      · rw [if_pos hlt, BitVec.toNat_sub_of_le (BitVec.le_of_lt hlt)]
      · rw [if_neg hlt, Nat.sub_eq_zero_of_le (Nat.not_lt.mp hlt)]
        rfl
    · rename_i hle
      obtain ⟨y', hy', h⟩ := Option.bind_eq_some_iff.mp h
      rw [if_neg hle, ih h, checkedAdd_eq_some.mp hy']

/-- The first round computes the invariant at the reserve it starts from. -/
theorem exists_first_round {x1 k y last : U256} {rounds : Nat}
    (h : stableLoop x1 k (rounds + 1) y = some last) : ∃ f, stableInvariant x1 y = some f := by
  simp only [stableLoop, Option.bind_eq_bind, Option.bind_eq_some_iff] at h
  obtain ⟨f, hf, -⟩ := h
  exact ⟨f, hf⟩

/-! ## The quote -/

/-- The arguments of a stable quote. -/
structure StableSwap where
  amountIn : U256
  reserveIn : U256
  reserveOut : U256
  decimalsIn : UInt8
  decimalsOut : UInt8

namespace StableSwap

variable (s : StableSwap)

def quote : Option U256 :=
  getAmountOutStable s.amountIn s.reserveIn s.reserveOut s.decimalsIn s.decimalsOut

/-- The invariant before and after a swap that pays `dy`, as the contract computes it. There is
none where the reserve does not cover `dy`. -/
def invariants (dy : U256) : Option (U256 × U256) := do
  let scaleIn ← stableScale s.decimalsIn
  let scaleOut ← stableScale s.decimalsOut
  let x0 ← checkedMul s.reserveIn scaleIn
  let y0 ← checkedMul s.reserveOut scaleOut
  let dx ← checkedMul s.amountIn scaleIn
  let x1 ← checkedAdd x0 dx
  let y1 ← checkedSub y0 (← checkedMul dy scaleOut)
  return (← stableInvariant x0 y0, ← stableInvariant x1 y1)

/-- The reserve covers `dy`, and the invariant does not fall. -/
def KeepsInvariant (dy : U256) : Prop :=
  ∃ before after, s.invariants dy = some (before, after) ∧ before ≤ after

def unitOut : Nat := 10 ^ (18 - s.decimalsOut.toNat)

/-- The reserves and the amount in units of the curve. -/
def x0 : Nat := s.reserveIn.toNat * 10 ^ (18 - s.decimalsIn.toNat)

def x1 : Nat := s.x0 + s.amountIn.toNat * 10 ^ (18 - s.decimalsIn.toNat)

def y0 : Nat := s.reserveOut.toNat * s.unitOut

def k : Nat := stableCurve (10 ^ 18) s.x0 s.y0

/-- The reserve the search ends at. -/
def solved : Nat := lastPoint (nextReserve s.x1 s.k) 255 s.y0

/-- No whole number of token units is short of the invariant by the rounding only: of the curve,
and of a step of the search. -/
def Clear : Prop := ∀ units, stableCurve (10 ^ 18) s.x1 (units * s.unitOut) < s.k →
  ¬ Near s.x1 s.k (units * s.unitOut)

variable {s} {dy : U256}

theorem unitOut_pos : 0 < s.unitOut := Nat.pow_pos (by decide)

theorem toNat_stableScale {decimals : UInt8} {scale : U256}
    (h : stableScale decimals = some scale) : scale.toNat = 10 ^ (18 - decimals.toNat) := by
  unfold stableScale at h
  split at h
  · cases h
    rw [BitVec.toNat_ofNat]
    refine Nat.mod_eq_of_lt ((Nat.pow_le_pow_right (by decide) (Nat.sub_le _ _)).trans_lt ?_)
    decide
  · cases h

/-- The words of a quote that is answered. -/
theorem quote_eq_some (h : s.quote = some dy) :
    ∃ scaleIn scaleOut x0 y0 dx x1 k f : U256,
      (stableScale s.decimalsIn = some scaleIn ∧ stableScale s.decimalsOut = some scaleOut ∧
        checkedMul s.reserveIn scaleIn = some x0 ∧ checkedMul s.reserveOut scaleOut = some y0 ∧
        checkedMul s.amountIn scaleIn = some dx ∧ checkedAdd x0 dx = some x1 ∧
        stableInvariant x0 y0 = some k ∧ stableInvariant x1 y0 = some f) ∧
      scaleOut.toNat = s.unitOut ∧ y0.toNat = s.y0 ∧ x1.toNat = s.x1 ∧ k.toNat = s.k ∧
        dy.toNat = (s.y0 - s.solved) / s.unitOut := by
  simp only [quote, getAmountOutStable, Option.bind_eq_bind, Option.bind_eq_some_iff,
    Option.some_inj] at h
  obtain ⟨scaleIn, hscaleIn, scaleOut, hscaleOut, x0, hx0, y0, hy0, dx, hdx, x1, hx1, k, hk, y,
    hy, hdy⟩ := h
  obtain ⟨f, hf⟩ := exists_first_round hy
  have hscaleIn' := toNat_stableScale hscaleIn
  have hscaleOut' : scaleOut.toNat = s.unitOut := toNat_stableScale hscaleOut
  have hx0' : x0.toNat = s.x0 := by rw [checkedMul_eq_some.mp hx0, hscaleIn', StableSwap.x0]
  have hy0' : y0.toNat = s.y0 := by rw [checkedMul_eq_some.mp hy0, hscaleOut', StableSwap.y0]
  have hx1' : x1.toNat = s.x1 := by
    rw [checkedAdd_eq_some.mp hx1, hx0', checkedMul_eq_some.mp hdx, hscaleIn', StableSwap.x1]
  have hk' : k.toNat = s.k := by rw [stableInvariant_eq_some hk, hx0', hy0', StableSwap.k]
  have hy' : y.toNat = s.solved := by
    rw [stableLoop_eq_some 255 hy, hx1', hk', hy0', solved]
  refine ⟨scaleIn, scaleOut, x0, y0, dx, x1, k, f,
    ⟨hscaleIn, hscaleOut, hx0, hy0, hdx, hx1, hk, hf⟩, hscaleOut', hy0', hx1', hk', ?_⟩
  rw [← hdy, BitVec.toNat_udiv, hscaleOut', ← hy', ← hy0']
  by_cases hlt : y < y0
  · rw [if_pos hlt, BitVec.toNat_sub_of_le (BitVec.le_of_lt hlt)]
  · rw [if_neg hlt, Nat.sub_eq_zero_of_le (Nat.not_lt.mp hlt)]
    rfl

/-- What is paid is covered by the reserve. -/
theorem paid_le (hdy : dy.toNat = (s.y0 - s.solved) / s.unitOut) :
    dy.toNat * s.unitOut ≤ s.y0 := by
  rw [hdy]
  exact (Nat.div_mul_le_self _ _).trans (Nat.sub_le _ _)

theorem keepsInvariant_iff (h : s.quote = some dy) :
    s.KeepsInvariant dy ↔ s.k ≤ stableCurve (10 ^ 18) s.x1 (s.y0 - dy.toNat * s.unitOut) := by
  obtain ⟨scaleIn, scaleOut, x0, y0, dx, x1, k, f,
    ⟨hscaleIn, hscaleOut, hx0, hy0, hdx, hx1, hk, hf⟩, hscaleOut', hy0', hx1', hk', hdy⟩ :=
    quote_eq_some h
  have hpaid := paid_le hdy
  have hpaid' : dy.toNat * scaleOut.toNat ≤ y0.toNat := by rw [hscaleOut', hy0']; exact hpaid
  obtain ⟨paid, hpaidWord, hpaidValue⟩ := exists_checkedMul (hpaid'.trans_lt y0.isLt)
  have hy1 : checkedSub y0 paid = some (y0 - paid) := if_pos (by rw [hpaidValue]; exact hpaid')
  have hy1' : (y0 - paid).toNat = s.y0 - dy.toNat * s.unitOut := by
    rw [BitVec.toNat_sub_of_le (BitVec.le_def.mpr (by rw [hpaidValue]; exact hpaid')), hpaidValue,
      hscaleOut', hy0']
  obtain ⟨after, hafter⟩ := exists_stableInvariant hf (y0 - paid) (by omega)
  have hinvariants : s.invariants dy = some (k, after) := by
    simp only [invariants, Option.bind_eq_bind, hscaleIn, hscaleOut, hx0, hy0, hdx, hx1, hpaidWord,
      hy1, hk, hafter, Option.bind_some, Option.pure_def]
  have hvalue : k ≤ after ↔
      s.k ≤ stableCurve (10 ^ 18) s.x1 (s.y0 - dy.toNat * s.unitOut) := by
    rw [BitVec.le_def, hk', stableInvariant_eq_some hafter, hx1', hy1']
  rw [← hvalue]
  constructor
  · rintro ⟨before, after', hboth, hle⟩
    rw [hinvariants] at hboth
    cases hboth
    exact hle
  · exact fun hle => ⟨k, after, hinvariants, hle⟩

/-- Before anything is paid out the input keeps the invariant. -/
theorem k_le_curve : s.k ≤ stableCurve (10 ^ 18) s.x1 s.y0 :=
  stableCurve_mono (Nat.le_add_right _ _) (Nat.le_refl _)

/-- What remains of the reserve is a whole number of token units, and all of it or the reserve
solved for at least. -/
theorem remaining_eq (hdy : dy.toNat = (s.y0 - s.solved) / s.unitOut) :
    s.y0 - dy.toNat * s.unitOut = (s.reserveOut.toNat - dy.toNat) * s.unitOut ∧
      min s.y0 s.solved ≤ s.y0 - dy.toNat * s.unitOut := by
  have hpaid : dy.toNat * s.unitOut ≤ s.y0 - s.solved := hdy ▸ Nat.div_mul_le_self _ _
  refine ⟨?_, by omega⟩
  rw [y0, Nat.sub_mul]

theorem keepsInvariant_of_clear (h : s.quote = some dy) (hclear : s.Clear) :
    s.KeepsInvariant dy := by
  obtain ⟨-, -, -, -, -, -, -, -, -, -, -, -, -, hdy⟩ := quote_eq_some h
  obtain ⟨hunits, hremains⟩ := remaining_eq hdy
  have hnear : Near s.x1 s.k (min s.y0 s.solved) := by
    rcases Nat.le_total s.y0 s.solved with hle | hge
    · rw [Nat.min_eq_left hle]
      exact near_of_above k_le_curve
    · rw [Nat.min_eq_right hge]
      exact near_lastPoint 255 (near_of_above k_le_curve)
  rw [keepsInvariant_iff h]
  by_contra hshort
  rw [hunits] at hremains hshort
  exact hclear _ (Nat.not_le.mp hshort) (hnear.mono hremains)

/-- The reserve fits half a word, as the curve fits a word. -/
theorem y0_lt (h : s.quote = some dy) (hx : 4 * 10 ^ 18 ≤ s.x1) : s.y0 < 2 ^ 128 := by
  obtain ⟨-, -, -, y0, -, x1, -, f, ⟨-, -, -, -, -, -, -, hf⟩, -, hy0, hx1, -⟩ := quote_eq_some h
  by_contra hge
  have hmono := stableCurve_mono (e := 10 ^ 18) hx (Nat.not_lt.mp hge)
  have hcurve := stableInvariant_eq_some hf
  rw [hx1, hy0] at hcurve
  have hword := hcurve ▸ f.isLt
  exact absurd (hmono.trans_lt hword) (by decide)

theorem not_keepsInvariant_of_steppedOver (h : s.quote = some dy) (hx : 4 * 10 ^ 18 ≤ s.x1)
    {units : Nat} (hover : SteppedOver s.x1 s.k (units * s.unitOut)) : ¬ s.KeepsInvariant dy := by
  obtain ⟨-, -, -, -, -, -, -, -, -, -, -, -, -, hdy⟩ := quote_eq_some h
  have hlt : units * s.unitOut < s.y0 := by
    by_contra hge
    exact Nat.not_le.mpr hover.below
      (k_le_curve.trans (stableCurve_mono (Nat.le_refl _) (Nat.not_lt.mp hge)))
  have hsolved : s.solved = units * s.unitOut := hover.lastPoint_eq hx hlt (y0_lt h hx)
  have hremains : s.y0 - dy.toNat * s.unitOut = units * s.unitOut := by
    have hexact := Nat.div_mul_cancel (Nat.dvd_sub (Nat.dvd_mul_left _ _)
      (Nat.dvd_mul_left _ _) : s.unitOut ∣ s.y0 - units * s.unitOut)
    rw [hdy, hsolved, hexact, Nat.sub_sub_self hlt.le]
  rw [keepsInvariant_iff h, hremains]
  exact Nat.not_le.mpr hover.below

/-- The condition is one on the last number of token units that is short. -/
theorem clear_of_next {units : Nat}
    (hnext : s.k ≤ stableCurve (10 ^ 18) s.x1 ((units + 1) * s.unitOut))
    (hunits : ¬ Near s.x1 s.k (units * s.unitOut)) : s.Clear := by
  intro short hshort hnear
  rcases Nat.lt_or_ge units short with hlt | hge
  · have hmono := stableCurve_mono (e := 10 ^ 18) (Nat.le_refl s.x1)
      (Nat.mul_le_mul_right s.unitOut hlt)
    exact Nat.not_le.mpr hshort (hnext.trans hmono)
  · exact hunits (hnear.mono (Nat.mul_le_mul_right _ hge))

end StableSwap

/-- 63.65 units of a token with 6 decimals against 35.01 units of one with 18, and an input of two
millionths. -/
def shortSwap : StableSwap := ⟨2, 63654556, 35006284189037137920, 6, 18⟩

theorem shortSwap_invariants : shortSwap.invariants 1904409162120 =
    some (11759552156613295632107492, 11759552156613295632107455) := by
  decide +kernel

/-- One unit into a pool of a thousand units of each token. -/
def evenSwap : StableSwap := ⟨10 ^ 18, 10 ^ 21, 10 ^ 21, 18, 18⟩

theorem evenSwap_clear : evenSwap.Clear := by
  have hnext : evenSwap.k ≤ stableCurve (10 ^ 18) evenSwap.x1
      ((999000000000499999999 + 1) * evenSwap.unitOut) := by decide +kernel
  apply StableSwap.clear_of_next hnext
  unfold Near
  decide +kernel

end ArbBot.V2ArbBot
