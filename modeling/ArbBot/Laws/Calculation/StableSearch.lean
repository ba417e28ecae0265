import ArbBot.Calculation.Aerodrome
import ArbBot.Lib.StableCurve
import ArbBot.Lib.Word

/-!
# The stable search of the estimator

`get_y_stable` solves the stable curve by Newton's method in rounded arithmetic and answers zero
where it fails: at a zero slope, or after 255 rounds. Where the search settles it is at a reserve on
the curve or next above it, whose excess is less than the slope. There is at most one, and with four
units of the other reserve the search finds it from above, well within its rounds
(`solveReserve_of_settlingPoint`).
-/

namespace ArbBot

open Lib

/-! ## Values -/

theorem toNat_oneE18 : oneE18.toNat = 10 ^ 18 := rfl

/-- The products of a round fit the word. -/
structure PointFits (x y : Nat) : Prop where
  xy : x * y < 2 ^ 256
  xx : x * x < 2 ^ 256
  yy : y * y < 2 ^ 256
  curve : x * y / 10 ^ 18 * (x * x / 10 ^ 18 + y * y / 10 ^ 18) < 2 ^ 256
  slope : 3 * x * (y * y / 10 ^ 18) < 2 ^ 256
  cube : x * x / 10 ^ 18 * x < 2 ^ 256

instance (x y : Nat) : Decidable (PointFits x y) :=
  decidable_of_iff (x * y < 2 ^ 256 ∧ x * x < 2 ^ 256 ∧ y * y < 2 ^ 256 ∧
      x * y / 10 ^ 18 * (x * x / 10 ^ 18 + y * y / 10 ^ 18) < 2 ^ 256 ∧
      3 * x * (y * y / 10 ^ 18) < 2 ^ 256 ∧ x * x / 10 ^ 18 * x < 2 ^ 256)
    ⟨fun ⟨h1, h2, h3, h4, h5, h6⟩ => ⟨h1, h2, h3, h4, h5, h6⟩,
      fun ⟨h1, h2, h3, h4, h5, h6⟩ => ⟨h1, h2, h3, h4, h5, h6⟩⟩

theorem PointFits.mono {x x' y y' : Nat} (h : PointFits x y) (hx : x' ≤ x) (hy : y' ≤ y) :
    PointFits x' y' where
  xy := lt_of_le_of_lt (by gcongr) h.xy
  xx := lt_of_le_of_lt (by gcongr) h.xx
  yy := lt_of_le_of_lt (by gcongr) h.yy
  curve := lt_of_le_of_lt (by gcongr) h.curve
  slope := lt_of_le_of_lt (by gcongr) h.slope
  cube := lt_of_le_of_lt (by gcongr) h.cube

/-- The slope of the curve, as `d_stable` rounds it. -/
def stableSlope (x y : Nat) : Nat :=
  3 * x * (y * y / 10 ^ 18) / 10 ^ 18 + x * x / 10 ^ 18 * x / 10 ^ 18

variable {x y : U256}

theorem toNat_fStable (h : PointFits x.toNat y.toNat) :
    (fStable x y).toNat = stableCurve (10 ^ 18) x.toNat y.toNat := by
  have hxy : (x * y / oneE18).toNat = x.toNat * y.toNat / 10 ^ 18 := by
    rw [BitVec.toNat_udiv, toNat_mul_of_lt h.xy, toNat_oneE18]
  have hxx : (x * x / oneE18).toNat = x.toNat * x.toNat / 10 ^ 18 := by
    rw [BitVec.toNat_udiv, toNat_mul_of_lt h.xx, toNat_oneE18]
  have hyy : (y * y / oneE18).toNat = y.toNat * y.toNat / 10 ^ 18 := by
    rw [BitVec.toNat_udiv, toNat_mul_of_lt h.yy, toNat_oneE18]
  have hsum : (x * x / oneE18 + y * y / oneE18).toNat =
      x.toNat * x.toNat / 10 ^ 18 + y.toNat * y.toNat / 10 ^ 18 := by
    have := h.xx
    have := h.yy
    rw [toNat_add_of_lt (by rw [hxx, hyy]; omega), hxx, hyy]
  unfold fStable
  dsimp only
  rw [BitVec.toNat_udiv, toNat_mul_of_lt (by rw [hxy, hsum]; exact h.curve), hxy, hsum,
    toNat_oneE18, stableCurve]

theorem toNat_dStable (h : PointFits x.toNat y.toNat) :
    (dStable x y).toNat = stableSlope x.toNat y.toNat := by
  have hxx : (x * x / oneE18).toNat = x.toNat * x.toNat / 10 ^ 18 := by
    rw [BitVec.toNat_udiv, toNat_mul_of_lt h.xx, toNat_oneE18]
  have hyy : (y * y / oneE18).toNat = y.toNat * y.toNat / 10 ^ 18 := by
    rw [BitVec.toNat_udiv, toNat_mul_of_lt h.yy, toNat_oneE18]
  have hthree : (3 * x).toNat = 3 * x.toNat := by
    have hx : x.toNat < 2 ^ 128 := by
      by_contra hge
      have := Nat.mul_le_mul (Nat.not_lt.mp hge) (Nat.not_lt.mp hge)
      have := h.xx
      omega
    exact toNat_mul_of_lt (a := 3) (by change 3 * x.toNat < _; omega)
  have hslope : (3 * x * (y * y / oneE18) / oneE18).toNat =
      3 * x.toNat * (y.toNat * y.toNat / 10 ^ 18) / 10 ^ 18 := by
    rw [BitVec.toNat_udiv, toNat_mul_of_lt (by rw [hthree, hyy]; exact h.slope), hthree, hyy,
      toNat_oneE18]
  have hcube : (x * x / oneE18 * x / oneE18).toNat =
      x.toNat * x.toNat / 10 ^ 18 * x.toNat / 10 ^ 18 := by
    rw [BitVec.toNat_udiv, toNat_mul_of_lt (by rw [hxx]; exact h.cube), hxx, toNat_oneE18]
  have hs := h.slope
  have hc := h.cube
  unfold dStable
  dsimp only
  rw [toNat_add_of_lt (by rw [hslope, hcube]; omega), hslope, hcube, stableSlope]

/-! ## The search -/

/-- How a round of the search ends. -/
inductive Round where
  | fails
  | settles
  | moves (y : Nat)
  deriving DecidableEq

/-- One round: it fails at a zero slope, settles at or next above the curve, or moves on. -/
def newtonRound (x k y : Nat) : Round :=
  let f := stableCurve (10 ^ 18) x y
  let slope := stableSlope x y
  if slope = 0 then .fails
  else if f < k then .moves (min (y + max ((k - f) * 10 ^ 18 / slope) 1) (2 ^ 256 - 1))
  else if (f - k) * 10 ^ 18 / slope = 0 ∧ (f = k ∨ stableCurve (10 ^ 18) x (y - 1) < k) then
    .settles
  else .moves (y - max ((f - k) * 10 ^ 18 / slope) 1)

/-- The reserve the search settles at, unless it fails or is out of rounds. -/
def solveReserve (x k : Nat) : Nat → Nat → Option Nat
  | 0, _ => none
  | rounds + 1, y =>
    match newtonRound x k y with
    | .fails => none
    | .settles => some y
    | .moves y' => solveReserve x k rounds y'

/-- The products of one round fit the word, with the distance to the curve on either side. -/
def RoundFits (x k y : Nat) : Prop :=
  PointFits x y ∧ (k - stableCurve (10 ^ 18) x y) * 10 ^ 18 < 2 ^ 256 ∧
    (stableCurve (10 ^ 18) x y - k) * 10 ^ 18 < 2 ^ 256

instance (x k y : Nat) : Decidable (RoundFits x k y) := inferInstanceAs (Decidable (_ ∧ _ ∧ _))

/-- The products of the rounds fit the word. -/
def RoundsFit (x k : Nat) : Nat → Nat → Prop
  | 0, _ => True
  | rounds + 1, y =>
    RoundFits x k y ∧ ∀ y', newtonRound x k y = .moves y' → RoundsFit x k rounds y'

/-- A search that settles is not below the curve. -/
theorem solveReserve_safe {x k last : Nat} : ∀ {rounds y : Nat},
    solveReserve x k rounds y = some last → k ≤ stableCurve (10 ^ 18) x last
  | 0, _, h => by cases h
  | rounds + 1, y, h => by
    unfold solveReserve at h
    split at h
    · cases h
    · rename_i hround
      cases h
      unfold newtonRound at hround
      dsimp only at hround
      by_contra hlt
      rw [if_pos (Nat.not_le.mp hlt)] at hround
      split at hround <;> cases hround
    · exact solveReserve_safe h

theorem toNat_saturatingAddU256 (y dy : U256) :
    (saturatingAddU256 y dy).toNat = min (y.toNat + dy.toNat) (2 ^ 256 - 1) := by
  unfold saturatingAddU256
  split <;> rename_i h
  · rw [toNat_add_of_lt h]
    omega
  · rw [BitVec.toNat_allOnes]
    omega

theorem toNat_saturatingSubU256 (y dy : U256) :
    (saturatingSubU256 y dy).toNat = y.toNat - dy.toNat := by
  unfold saturatingSubU256
  split <;> rename_i h
  · exact BitVec.toNat_sub_of_le h
  · rw [BitVec.not_le, BitVec.lt_def] at h
    rw [Nat.sub_eq_zero_of_le h.le]
    rfl

/-- The step of a round: the rounded quotient of the distance and the slope. -/
theorem toNat_step {high low slope : U256} (hle : low.toNat ≤ high.toNat)
    (hfit : (high.toNat - low.toNat) * 10 ^ 18 < 2 ^ 256) :
    ((high - low) * oneE18 / slope).toNat =
      (high.toNat - low.toNat) * 10 ^ 18 / slope.toNat := by
  have hsub : (high - low).toNat = high.toNat - low.toNat :=
    BitVec.toNat_sub_of_le (BitVec.le_def.mpr hle)
  rw [BitVec.toNat_udiv, toNat_mul_of_lt (by rw [hsub]; exact hfit), hsub, toNat_oneE18]

/-- A step up of at least one, to the end of the word at most. -/
theorem toNat_stepUp (y dy : U256) :
    (if dy = 0 then saturatingAddU256 y 1 else saturatingAddU256 y dy).toNat =
      min (y.toNat + max dy.toNat 1) (2 ^ 256 - 1) := by
  by_cases hdy : dy = 0
  · rw [if_pos hdy, hdy]
    exact toNat_saturatingAddU256 y 1
  · have hmoves : 1 ≤ dy.toNat := toNat_pos hdy
    rw [if_neg hdy, toNat_saturatingAddU256, Nat.max_eq_left hmoves]

/-- A step down of at least one, to zero at most. -/
theorem toNat_stepDown (y dy : U256) :
    (if dy = 0 then saturatingSubU256 y 1 else saturatingSubU256 y dy).toNat =
      y.toNat - max dy.toNat 1 := by
  by_cases hdy : dy = 0
  · rw [if_pos hdy, hdy]
    exact toNat_saturatingSubU256 y 1
  · have hmoves : 1 ≤ dy.toNat := toNat_pos hdy
    rw [if_neg hdy, toNat_saturatingSubU256, Nat.max_eq_left hmoves]

/-- One round of the loop. -/
theorem getYStableLoop_succ {xy : U256} (rounds : Nat)
    (hfits : RoundFits x.toNat xy.toNat y.toNat) :
    match newtonRound x.toNat xy.toNat y.toNat with
    | .fails => getYStableLoop x xy (rounds + 1) y = 0
    | .settles => getYStableLoop x xy (rounds + 1) y = y
    | .moves next => ∃ y' : U256, y'.toNat = next ∧
        getYStableLoop x xy (rounds + 1) y = getYStableLoop x xy rounds y' := by
  obtain ⟨hpoint, hdeficit, hexcess⟩ := hfits
  have hzero : ∀ {w : U256}, w = 0 ↔ w.toNat = 0 := BitVec.toNat_inj.symm
  have hf := toNat_fStable hpoint
  have hd := toNat_dStable hpoint
  have hbelow : (fStable x (saturatingSubU256 y 1)).toNat =
      stableCurve (10 ^ 18) x.toNat (y.toNat - 1) := by
    have hsub : (saturatingSubU256 y 1).toNat = y.toNat - 1 := toNat_saturatingSubU256 y 1
    rw [toNat_fStable (hpoint.mono (Nat.le_refl _) (hsub ▸ Nat.sub_le _ _)), hsub]
  rw [← hf] at hdeficit hexcess
  rw [newtonRound, getYStableLoop]
  dsimp only
  rw [← hf, ← hd, ← hbelow]
  generalize dStable x y = slope
  generalize fStable x y = f at hdeficit hexcess
  generalize fStable x (saturatingSubU256 y 1) = below
  by_cases hflat : slope = 0
  · rw [if_pos hflat, if_pos (hzero.mp hflat)]
  rw [if_neg hflat, if_neg (mt hzero.mpr hflat)]
  by_cases hlt : f < xy
  · rw [if_pos hlt, if_pos (BitVec.lt_def.mp hlt), ← toNat_step (BitVec.lt_def.mp hlt).le hdeficit]
    generalize (xy - f) * oneE18 / slope = dy
    refine ⟨_, toNat_stepUp y dy, ?_⟩
    split <;> rfl
  · have hge := Nat.not_lt.mp (mt BitVec.lt_def.mpr hlt)
    have hstops : f = xy ∨ below < xy ↔ f.toNat = xy.toNat ∨ below.toNat < xy.toNat :=
      or_congr BitVec.toNat_inj.symm BitVec.lt_def
    rw [if_neg hlt, if_neg (Nat.not_lt.mpr hge), ← toNat_step hge hexcess]
    generalize (f - xy) * oneE18 / slope = dy
    by_cases hstop : dy = 0 ∧ (f = xy ∨ below < xy)
    · rw [if_pos hstop.1, if_pos hstop.2, if_pos ⟨hzero.mp hstop.1, hstops.mp hstop.2⟩]
    · rw [if_neg fun h => hstop ⟨hzero.mpr h.1, hstops.mpr h.2⟩]
      refine ⟨_, toNat_stepDown y dy, ?_⟩
      by_cases hdy : dy = 0
      · rw [if_pos hdy, if_pos hdy, if_neg fun h => hstop ⟨hdy, h⟩]
      · rw [if_neg hdy, if_neg hdy]

/-- The loop answers the reserve the search settles at, and zero where it fails. -/
theorem toNat_getYStableLoop {xy : U256} (rounds : Nat) : ∀ {y : U256},
    RoundsFit x.toNat xy.toNat rounds y.toNat →
      (getYStableLoop x xy rounds y).toNat =
        (solveReserve x.toNat xy.toNat rounds y.toNat).getD 0 := by
  induction rounds with
  | zero => exact fun _ => rfl
  | succ rounds ih =>
    rintro y ⟨hfits, hrest⟩
    have hround := getYStableLoop_succ rounds hfits
    rw [solveReserve]
    cases hmove : newtonRound x.toNat xy.toNat y.toNat with
    | fails =>
      rw [hmove] at hround
      rw [hround]
      rfl
    | settles =>
      rw [hmove] at hround
      rw [hround]
      rfl
    | moves next =>
      rw [hmove] at hround
      obtain ⟨y', rfl, hloop⟩ := hround
      rw [hloop, ih (hrest _ hmove)]

/-! ## Where the search settles -/

/-- A reserve on the curve or next above it, with an excess less than the slope. -/
structure SettlingPoint (x k y : Nat) : Prop where
  pos : 0 < y
  above : k ≤ stableCurve (10 ^ 18) x y
  next : stableCurve (10 ^ 18) x y = k ∨ stableCurve (10 ^ 18) x (y - 1) < k
  close : (stableCurve (10 ^ 18) x y - k) * 10 ^ 18 < stableSlope x y

theorem newtonRound_eq_settles {x k y : Nat} : newtonRound x k y = .settles ↔
    k ≤ stableCurve (10 ^ 18) x y ∧
    (stableCurve (10 ^ 18) x y = k ∨ stableCurve (10 ^ 18) x (y - 1) < k) ∧
    (stableCurve (10 ^ 18) x y - k) * 10 ^ 18 < stableSlope x y := by
  unfold newtonRound
  dsimp only
  by_cases hflat : stableSlope x y = 0
  · rw [if_pos hflat, hflat]
    exact iff_of_false (fun h => by cases h) fun h => Nat.not_lt_zero _ h.2.2
  have hstill : (stableCurve (10 ^ 18) x y - k) * 10 ^ 18 / stableSlope x y = 0 ↔
      (stableCurve (10 ^ 18) x y - k) * 10 ^ 18 < stableSlope x y :=
    Nat.div_eq_zero_iff_lt (Nat.pos_of_ne_zero hflat)
  rw [if_neg hflat]
  by_cases hlt : stableCurve (10 ^ 18) x y < k
  · rw [if_pos hlt]
    exact iff_of_false (fun h => by cases h) fun h => Nat.not_le.mpr hlt h.1
  · rw [if_neg hlt, ← hstill]
    split <;> rename_i hstop
    · exact iff_of_true rfl ⟨Nat.not_lt.mp hlt, hstop.2, hstop.1⟩
    · exact iff_of_false (fun h => by cases h) fun h => hstop ⟨h.2.2, h.2.1⟩

/-- A search that settles at a reserve settles at such a one. -/
theorem settlingPoint_of_solveReserve {x k last : Nat} (hlast : last ≠ 0) : ∀ {rounds y : Nat},
    solveReserve x k rounds y = some last → SettlingPoint x k last
  | 0, _, h => by cases h
  | rounds + 1, y, h => by
    unfold solveReserve at h
    split at h
    · cases h
    · rename_i hround
      cases h
      obtain ⟨habove, hnext, hclose⟩ := newtonRound_eq_settles.mp hround
      exact ⟨Nat.pos_of_ne_zero hlast, habove, hnext, hclose⟩
    · exact settlingPoint_of_solveReserve hlast h

/-! ## From above -/

section FromAbove

variable {x k r : Nat}

theorem roundsSlope (x y : Nat) : RoundsSlope (10 ^ 18) x y (stableSlope x y) := by
  have he : 0 < 10 ^ 18 := by decide
  unfold stableSlope
  generalize 10 ^ 18 = e at he ⊢
  have hx := Nat.mul_div_le (x * x) e
  have hy := Nat.mul_div_le (y * y) e
  have hx' := Nat.lt_mul_div_succ (x * x) he
  have hy' := Nat.lt_mul_div_succ (y * y) he
  generalize x * x / e = sx at hx hx' ⊢
  generalize y * y / e = sy at hy hy' ⊢
  have hfirst := Nat.mul_div_le (3 * x * sy) e
  have hsecond := Nat.mul_div_le (sx * x) e
  have hfirst' := Nat.lt_mul_div_succ (3 * x * sy) he
  have hsecond' := Nat.lt_mul_div_succ (sx * x) he
  generalize 3 * x * sy / e = first at hfirst hfirst' ⊢
  generalize sx * x / e = second at hsecond hsecond' ⊢
  constructor <;> unfold cubicSlope
  · have hscaled := Nat.mul_le_mul_left e (Nat.add_le_add hfirst hsecond)
    have hsquares := Nat.mul_le_mul_left x (Nat.add_le_add hx (Nat.mul_le_mul_left 3 hy))
    linarith only [hscaled, hsquares]
  · have hscaled := Nat.mul_le_mul_left e (Nat.add_le_add hfirst'.le hsecond'.le)
    have hsquares := Nat.mul_le_mul_left x (Nat.add_le_add hx'.le (Nat.mul_le_mul_left 3 hy'.le))
    linarith only [hscaled, hsquares]

variable (hx : 4 * 10 ^ 18 ≤ x)

include hx

/-- With four units of the other reserve a settling point is next above the curve. -/
theorem SettlingPoint.below (h : SettlingPoint x k r) : stableCurve (10 ^ 18) x (r - 1) < k := by
  rcases h.next with heq | hlt
  · have hincrease := stableCurve_lt_succ (by decide : 10 ≤ 10 ^ 18) hx (r - 1)
    rw [Nat.sub_add_cancel h.pos, heq] at hincrease
    exact hincrease
  · exact hlt

/-- A round from above closes in on it. -/
theorem SettlingPoint.round_above (h : SettlingPoint x k r) {y : Nat} (hy : r < y) :
    ∃ y', newtonRound x k y = .moves y' ∧ r ≤ y' + 1 ∧ y' < y ∧
      3 * (y' - r) ≤ 2 * (y - r) + 4 := by
  have he : 10 ≤ 10 ^ 18 := by decide
  obtain ⟨gap, rfl⟩ := Nat.exists_eq_add_of_le hy.le
  have hbefore : k ≤ stableCurve (10 ^ 18) x (r + gap - 1) :=
    h.above.trans (stableCurve_mono (Nat.le_refl _) (by omega))
  have hstrict := stableCurve_lt_succ he hx (r + gap - 1)
  rw [Nat.sub_add_cancel (by omega)] at hstrict
  have habove : k < stableCurve (10 ^ 18) x (r + gap) := Nat.lt_of_le_of_lt hbefore hstrict
  have hslope := roundsSlope x (r + gap)
  have hflat := (slope_pos he hx hslope).ne'
  have hway := way_le_of_above he hx h.above hslope
  have hrest : r - 1 + (gap + 1) = r + gap := by have := h.pos; omega
  have hpass : (stableCurve (10 ^ 18) x (r + gap) - k) * 10 ^ 18 / stableSlope x (r + gap) ≤
      gap + 1 := by
    rw [← hrest] at habove hslope
    have hstep := step_le_of_above (r := r - 1) he hx (Nat.succ_pos gap) (h.below hx) habove.le
      hslope
    rwa [hrest] at hstep
  refine ⟨r + gap - max ((stableCurve (10 ^ 18) x (r + gap) - k) * 10 ^ 18 /
    stableSlope x (r + gap)) 1, ?_, ?_⟩
  · unfold newtonRound
    dsimp only
    rw [if_neg hflat, if_neg (Nat.not_lt.mpr habove.le), if_neg]
    rintro ⟨-, heq | hlt⟩
    · exact habove.ne' heq
    · exact absurd hlt (Nat.not_lt.mpr hbefore)
  · have hpos := h.pos
    generalize (stableCurve (10 ^ 18) x (r + gap) - k) * 10 ^ 18 / stableSlope x (r + gap) =
      step at *
    omega

/-- A round from next below leads to it. -/
theorem SettlingPoint.round_below (h : SettlingPoint x k r) (hword : r < 2 ^ 256) :
    newtonRound x k (r - 1) = .moves r := by
  have he : 10 ≤ 10 ^ 18 := by decide
  have hbelow := h.below hx
  have hslope := roundsSlope x (r - 1)
  have hstep := step_le_of_below he hx hbelow (by rw [Nat.sub_add_cancel h.pos]; exact h.above)
    hslope
  have hpos := h.pos
  unfold newtonRound
  dsimp only
  rw [if_neg (slope_pos he hx hslope).ne', if_pos hbelow, Nat.max_eq_right hstep,
    Nat.sub_add_cancel hpos, Nat.min_eq_left (Nat.le_sub_one_of_lt hword)]

/-- **With four units of the other reserve the search finds a settling point from above.** -/
theorem solveReserve_of_settlingPoint (h : SettlingPoint x k r) {y : Nat} (hy : r ≤ y)
    (hword : y < 2 ^ 128) : solveReserve x k 255 y = some r := by
  have hmoves : ∀ {z z' : Nat}, newtonRound x k z = .moves z' → ∀ n,
      solveReserve x k (n + 1) z = solveReserve x k n z' := fun hround n => by
    rw [solveReserve, hround]
  have hsettles : ∀ n, solveReserve x k (n + 1) r = some r := fun n => by
    have hround : newtonRound x k r = .settles :=
      newtonRound_eq_settles.mpr ⟨h.above, h.next, h.close⟩
    rw [solveReserve, hround]
  apply answers_of_closing_in (r := r) (n := 219)
  · intro n z hlow hhigh
    rcases Nat.lt_or_ge z r with hlt | hge
    · obtain rfl : z = r - 1 := by omega
      rw [hmoves (h.round_below hx (hy.trans_lt (hword.trans (by decide)))), hsettles]
    · rw [Nat.le_antisymm hhigh hge, hsettles]
  · intro z hz
    obtain ⟨z', hround, hclose⟩ := h.round_above hx hz
    exact ⟨z', hmoves hround, hclose⟩
  · omega
  · have hgap : y - r - 4 ≤ 2 ^ 128 := by omega
    exact Nat.lt_of_le_of_lt (Nat.mul_le_mul_left _ hgap) (by decide)
  · decide

end FromAbove

end ArbBot
