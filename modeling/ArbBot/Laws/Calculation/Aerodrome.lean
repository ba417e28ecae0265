import ArbBot.Laws.Calculation.StableSearch

/-!
# Stable quotes of the estimator

`get_amount_out_stable` takes what the search of `get_y_stable` answers for the new reserve, and a
failed search answers zero. So it pays out the whole reserve. Where the search settles it is on the
safe side of the curve, and at a reserve other than zero the quote is safe; there has to be a reserve
to settle at, and with four units of the other token that is enough
(`getAmountOutAerodrome_safe_iff`).
-/

namespace ArbBot

open Lib

/-! ## The quote -/

section Normalised

variable {decimals decimals0 decimals1 : UInt8}

theorem toNat_pow10 (hd : decimals ≤ 18) : (pow10 decimals).toNat = 10 ^ decimals.toNat := by
  rw [pow10, BitVec.toNat_ofNat]
  refine Nat.mod_eq_of_lt
    ((Nat.pow_le_pow_right (by decide) (UInt8.le_iff_toNat_le.mp hd)).trans_lt ?_)
  decide

theorem pow10_ne_zero (hd : decimals ≤ 18) : pow10 decimals ≠ 0 := by
  intro h
  have := toNat_pow10 hd
  rw [h] at this
  exact absurd this (Nat.pow_pos (by decide)).ne

theorem pow_split (hd : decimals ≤ 18) :
    10 ^ 18 = 10 ^ (18 - decimals.toNat) * 10 ^ decimals.toNat := by
  have hle : decimals.toNat ≤ 18 := UInt8.le_iff_toNat_le.mp hd
  rw [← Nat.pow_add, Nat.sub_add_cancel hle]

/-- Reserves are normalised exactly. -/
theorem toNat_normalise (hd : decimals ≤ 18) {x : U256} (hx : x.toNat * 10 ^ 18 < 2 ^ 256) :
    (x * oneE18 / pow10 decimals).toNat = x.toNat * 10 ^ (18 - decimals.toNat) := by
  rw [BitVec.toNat_udiv, toNat_mul_of_lt hx, toNat_oneE18, toNat_pow10 hd, pow_split hd,
    ← Nat.mul_assoc, Nat.mul_div_cancel _ (Nat.pow_pos (by decide))]

theorem toNat_kStable (h0 : decimals0 ≤ 18) (h1 : decimals1 ≤ 18) {x y : U256}
    (hx : x.toNat * 10 ^ 18 < 2 ^ 256) (hy : y.toNat * 10 ^ 18 < 2 ^ 256)
    (hpoint : PointFits (x.toNat * 10 ^ (18 - decimals0.toNat))
      (y.toNat * 10 ^ (18 - decimals1.toNat))) :
    (kStable x y (pow10 decimals0) (pow10 decimals1)).toNat =
      stableCurve (10 ^ 18) (x.toNat * 10 ^ (18 - decimals0.toNat))
        (y.toNat * 10 ^ (18 - decimals1.toNat)) := by
  rw [← toNat_normalise h0 hx, ← toNat_normalise h1 hy] at hpoint ⊢
  rw [← toNat_fStable hpoint, kStable,
    if_neg (not_or.mpr ⟨pow10_ne_zero h0, pow10_ne_zero h1⟩)]
  rfl

theorem kStable_comm (x y dec0 dec1 : U256) : kStable x y dec0 dec1 = kStable y x dec1 dec0 := by
  unfold kStable
  simp only [or_comm (a := dec0 = 0), BitVec.mul_comm (x * oneE18 / dec0),
    BitVec.add_comm (_ * (x * oneE18 / dec0) / oneE18)]

end Normalised

/-- The arguments of a quote in a stable pool. -/
structure StableTrade where
  amountIn : U256
  reserve0 : U256
  reserve1 : U256
  decimals0 : UInt8
  decimals1 : UInt8
  feeBps : UInt64
  zeroForOne : Bool

namespace StableTrade

variable (t : StableTrade)

def out : U256 :=
  getAmountOutAerodrome t.amountIn t.reserve0 t.reserve1 t.decimals0 t.decimals1 true t.feeBps
    t.zeroForOne

def amountInAfterFee : U256 := t.amountIn * BitVec.ofNat 256 (10000 - t.feeBps).toNat / 10000

def reserveIn : U256 := if t.zeroForOne then t.reserve0 else t.reserve1

def reserveOut : U256 := if t.zeroForOne then t.reserve1 else t.reserve0

def decimalsIn : UInt8 := if t.zeroForOne then t.decimals0 else t.decimals1

def decimalsOut : UInt8 := if t.zeroForOne then t.decimals1 else t.decimals0

/-- The invariant of the reserves, as the estimator computes it. -/
def kBefore : U256 := kStable t.reserve0 t.reserve1 (pow10 t.decimals0) (pow10 t.decimals1)

/-- The invariant after the input less the fee is added and the output is removed. -/
def kAfter : U256 :=
  if t.zeroForOne then
    kStable (t.reserve0 + t.amountInAfterFee) (t.reserve1 - t.out) (pow10 t.decimals0)
      (pow10 t.decimals1)
  else
    kStable (t.reserve0 - t.out) (t.reserve1 + t.amountInAfterFee) (pow10 t.decimals0)
      (pow10 t.decimals1)

/-- The quote leaves some of the reserve, and the invariant does not fall. -/
structure Safe : Prop where
  lt : t.out < t.reserveOut
  keeps : t.kBefore ≤ t.kAfter

/-- The reserves and the amount, normalised. -/
def x0 : Nat := t.reserveIn.toNat * 10 ^ (18 - t.decimalsIn.toNat)

def x1 : Nat := (t.reserveIn.toNat + t.amountInAfterFee.toNat) * 10 ^ (18 - t.decimalsIn.toNat)

def unitOut : Nat := 10 ^ (18 - t.decimalsOut.toNat)

def y0 : Nat := t.reserveOut.toNat * t.unitOut

def k : Nat := stableCurve (10 ^ 18) t.x0 t.y0

/-- A pool with reserves, and no product that wraps: of the fee, of the normalisation, of the
rounds of the search. -/
structure Fits : Prop where
  reserve0 : 0 < t.reserve0
  reserve1 : 0 < t.reserve1
  decimals0 : t.decimals0 ≤ 18
  decimals1 : t.decimals1 ≤ 18
  feeBps : t.feeBps < 10000
  fee : t.amountIn.toNat * (10000 - t.feeBps.toNat) < 2 ^ 256
  sold : (t.reserveIn.toNat + t.amountInAfterFee.toNat) * 10 ^ 18 < 2 ^ 256
  bought : t.reserveOut.toNat * 10 ^ 18 < 2 ^ 256
  rounds : RoundsFit t.x1 t.k 255 t.y0

/-- The search settles at a reserve that is left. -/
def Settles : Prop := ∃ y, y ≠ 0 ∧ solveReserve t.x1 t.k 255 t.y0 = some y

theorem kBefore_eq : t.kBefore =
    kStable t.reserveIn t.reserveOut (pow10 t.decimalsIn) (pow10 t.decimalsOut) := by
  unfold kBefore reserveIn reserveOut decimalsIn decimalsOut
  cases t.zeroForOne
  · simp only [Bool.false_eq_true, if_false]
    exact kStable_comm _ _ _ _
  · simp only [if_true]

theorem kAfter_eq : t.kAfter = kStable (t.reserveIn + t.amountInAfterFee) (t.reserveOut - t.out)
    (pow10 t.decimalsIn) (pow10 t.decimalsOut) := by
  unfold kAfter reserveIn reserveOut decimalsIn decimalsOut
  cases t.zeroForOne
  · simp only [Bool.false_eq_true, if_false]
    exact kStable_comm _ _ _ _
  · simp only [if_true]

/-- The amount out from the reserve that is solved for. -/
def paid (y : U256) : U256 :=
  let reserve := t.reserveOut * oneE18 / pow10 t.decimalsOut
  if reserve ≤ y then 0 else (reserve - y) * pow10 t.decimalsOut / oneE18

variable {t}

theorem Fits.decimalsIn (h : t.Fits) : t.decimalsIn ≤ 18 := by
  unfold StableTrade.decimalsIn
  split
  · exact h.decimals0
  · exact h.decimals1

theorem Fits.decimalsOut (h : t.Fits) : t.decimalsOut ≤ 18 := by
  unfold StableTrade.decimalsOut
  split
  · exact h.decimals1
  · exact h.decimals0

theorem Fits.reserveOut_pos (h : t.Fits) : 0 < t.reserveOut.toNat := by
  unfold reserveOut
  split
  · exact BitVec.lt_def.mp h.reserve1
  · exact BitVec.lt_def.mp h.reserve0

theorem out_eq (h : t.Fits) (hamount : t.amountIn ≠ 0) : t.out =
    t.paid (getYStable (t.reserveIn * oneE18 / pow10 t.decimalsIn +
      t.amountInAfterFee * oneE18 / pow10 t.decimalsIn) t.kBefore
      (t.reserveOut * oneE18 / pow10 t.decimalsOut)) := by
  have hzero : ¬ (t.amountIn = 0 ∨ t.reserve0 = 0 ∨ t.reserve1 = 0) := by
    rintro (hz | hz | hz)
    · exact hamount hz
    · exact absurd h.reserve0 (by rw [hz]; decide)
    · exact absurd h.reserve1 (by rw [hz]; decide)
  unfold out getAmountOutAerodrome
  rw [if_neg hzero]
  unfold getAmountOutStable
  simp only [if_true, if_neg (pow10_ne_zero h.decimals0), if_neg (pow10_ne_zero h.decimals1)]
  unfold paid reserveIn reserveOut decimalsIn decimalsOut kBefore amountInAfterFee
  cases t.zeroForOne <;> simp only [Bool.false_eq_true, if_false, if_true,
    if_neg (pow10_ne_zero h.decimals0), if_neg (pow10_ne_zero h.decimals1)]

theorem unitOut_pos : 0 < t.unitOut := Nat.pow_pos (by decide)

theorem x0_le_x1 : t.x0 ≤ t.x1 := Nat.mul_le_mul_right _ (Nat.le_add_right _ _)

theorem Fits.reserveIn_lt (h : t.Fits) : t.reserveIn.toNat * 10 ^ 18 < 2 ^ 256 :=
  (Nat.mul_le_mul_right _ (Nat.le_add_right _ _)).trans_lt h.sold

theorem Fits.amount_lt (h : t.Fits) : t.amountInAfterFee.toNat * 10 ^ 18 < 2 ^ 256 :=
  (Nat.mul_le_mul_right _ (Nat.le_add_left _ _)).trans_lt h.sold

/-- The first round starts from the reserve that is bought from. -/
theorem Fits.point (h : t.Fits) : PointFits t.x1 t.y0 := h.rounds.1.1

theorem Fits.toNat_x1 (h : t.Fits) : (t.reserveIn * oneE18 / pow10 t.decimalsIn +
    t.amountInAfterFee * oneE18 / pow10 t.decimalsIn).toNat = t.x1 := by
  have hreserve := toNat_normalise h.decimalsIn h.reserveIn_lt
  have hamount := toNat_normalise h.decimalsIn h.amount_lt
  have hunit : 10 ^ (18 - t.decimalsIn.toNat) ≤ 10 ^ 18 :=
    Nat.pow_le_pow_right (by decide) (Nat.sub_le _ _)
  have hfit : (t.reserveIn.toNat + t.amountInAfterFee.toNat) * 10 ^ (18 - t.decimalsIn.toNat) <
      2 ^ 256 := (Nat.mul_le_mul_left _ hunit).trans_lt h.sold
  rw [toNat_add_of_lt (by rw [hreserve, hamount, ← Nat.add_mul]; exact hfit), hreserve, hamount,
    ← Nat.add_mul, x1]

theorem Fits.toNat_kBefore (h : t.Fits) : t.kBefore.toNat = t.k := by
  rw [kBefore_eq, toNat_kStable h.decimalsIn h.decimalsOut h.reserveIn_lt h.bought
    (h.point.mono x0_le_x1 (Nat.le_refl _))]
  rfl

/-- What is paid out is what the reserve has beyond the one that is solved for. -/
theorem Fits.toNat_out (h : t.Fits) (hamount : t.amountIn ≠ 0) :
    t.out.toNat = (t.y0 - (solveReserve t.x1 t.k 255 t.y0).getD 0) / t.unitOut := by
  have hreserve : (t.reserveOut * oneE18 / pow10 t.decimalsOut).toNat = t.y0 :=
    toNat_normalise h.decimalsOut h.bought
  have hroot : (getYStable (t.reserveIn * oneE18 / pow10 t.decimalsIn +
      t.amountInAfterFee * oneE18 / pow10 t.decimalsIn) t.kBefore
      (t.reserveOut * oneE18 / pow10 t.decimalsOut)).toNat =
        (solveReserve t.x1 t.k 255 t.y0).getD 0 := by
    rw [getYStable, toNat_getYStableLoop 255
      (by rw [h.toNat_x1, h.toNat_kBefore, hreserve]; exact h.rounds), h.toNat_x1,
      h.toNat_kBefore, hreserve]
  rw [out_eq h hamount, paid, ← hroot, ← hreserve]
  generalize getYStable _ _ _ = y
  split <;> rename_i hle
  · rw [Nat.sub_eq_zero_of_le (BitVec.le_def.mp hle), Nat.zero_div]
    rfl
  · have hlt := BitVec.lt_def.mp (BitVec.not_le.mp hle)
    have hsub := BitVec.toNat_sub_of_le (BitVec.le_def.mpr hlt.le)
    have hsplit := pow_split h.decimalsOut
    have hfit : (t.y0 - y.toNat) * 10 ^ t.decimalsOut.toNat < 2 ^ 256 := by
      refine (Nat.mul_le_mul_right _ (Nat.sub_le _ _)).trans_lt ?_
      rw [y0, unitOut, Nat.mul_assoc, ← hsplit]
      exact h.bought
    have hfit' : (t.reserveOut * oneE18 / pow10 t.decimalsOut - y).toNat *
        (pow10 t.decimalsOut).toNat < 2 ^ 256 := by
      rw [hsub, hreserve, toNat_pow10 h.decimalsOut]
      exact hfit
    rw [BitVec.toNat_udiv, toNat_mul_of_lt hfit', hsub, toNat_pow10 h.decimalsOut, toNat_oneE18,
      hsplit, Nat.mul_div_mul_right _ _ (Nat.pow_pos (by decide)), unitOut]

theorem Fits.toNat_kAfter (h : t.Fits) (hout : t.out.toNat ≤ t.reserveOut.toNat) :
    t.kAfter.toNat =
      stableCurve (10 ^ 18) t.x1 ((t.reserveOut.toNat - t.out.toNat) * t.unitOut) := by
  have hsum : (t.reserveIn + t.amountInAfterFee).toNat =
      t.reserveIn.toNat + t.amountInAfterFee.toNat :=
    toNat_add_of_lt ((Nat.le_mul_of_pos_right _ (by decide)).trans_lt h.sold)
  have hsub : (t.reserveOut - t.out).toNat = t.reserveOut.toNat - t.out.toNat :=
    BitVec.toNat_sub_of_le (BitVec.le_def.mpr hout)
  have hless : (t.reserveOut.toNat - t.out.toNat) * t.unitOut ≤ t.y0 :=
    Nat.mul_le_mul_right _ (Nat.sub_le _ _)
  have hleft : (t.reserveOut - t.out).toNat * 10 ^ 18 < 2 ^ 256 := by
    rw [hsub]
    exact (Nat.mul_le_mul_right _ (Nat.sub_le _ _)).trans_lt h.bought
  have hpoint : PointFits ((t.reserveIn + t.amountInAfterFee).toNat *
      10 ^ (18 - t.decimalsIn.toNat)) ((t.reserveOut - t.out).toNat *
        10 ^ (18 - t.decimalsOut.toNat)) := by
    rw [hsum, hsub]
    exact h.point.mono (Nat.le_refl _) hless
  rw [kAfter_eq, toNat_kStable h.decimalsIn h.decimalsOut (hsum ▸ h.sold) hleft hpoint, hsum, hsub]
  rfl

/-- Where nothing is paid out the invariant does not fall. -/
theorem k_le_curve : t.k ≤ stableCurve (10 ^ 18) t.x1 t.y0 :=
  stableCurve_mono x0_le_x1 (Nat.le_refl _)

theorem safe_of_zero (h : t.Fits) (hout : t.out.toNat = 0) : t.Safe := by
  refine ⟨BitVec.lt_def.mpr (hout ▸ h.reserveOut_pos), BitVec.le_def.mpr ?_⟩
  rw [h.toNat_kBefore, h.toNat_kAfter (hout ▸ Nat.zero_le _), hout, Nat.sub_zero]
  exact k_le_curve

theorem safe_of_settles (h : t.Fits) (hamount : t.amountIn ≠ 0) (hsettles : t.Settles) :
    t.Safe := by
  obtain ⟨y, hy, hsolve⟩ := hsettles
  have hout := h.toNat_out hamount
  rw [hsolve, Option.getD_some] at hout
  rcases Nat.le_total y t.y0 with hle | hge
  · have hlt : t.out.toNat < t.reserveOut.toNat := by
      rw [hout]
      exact paid_units_lt h.reserveOut_pos unitOut_pos (Nat.pos_of_ne_zero hy)
    refine ⟨BitVec.lt_def.mpr hlt, BitVec.le_def.mpr ?_⟩
    have hremaining := remaining_units t.reserveOut.toNat hle
    rw [← y0, ← hout] at hremaining
    rw [h.toNat_kBefore, h.toNat_kAfter hlt.le, hremaining]
    exact (solveReserve_safe hsolve).trans
      (stableCurve_mono (Nat.le_refl _) (Nat.le_add_right _ _))
  · refine safe_of_zero h ?_
    rw [hout, Nat.sub_eq_zero_of_le hge, Nat.zero_div]

theorem not_safe_of_fails (h : t.Fits) (hamount : t.amountIn ≠ 0) (hfails : ¬ t.Settles) :
    ¬ t.Safe := by
  intro hsafe
  have hzero : (solveReserve t.x1 t.k 255 t.y0).getD 0 = 0 := by
    cases hsolve : solveReserve t.x1 t.k 255 t.y0 with
    | none => rfl
    | some y => exact of_not_not fun hy => hfails ⟨y, hy, hsolve⟩
  have hout := h.toNat_out hamount
  rw [hzero, Nat.sub_zero, y0, Nat.mul_div_cancel _ unitOut_pos] at hout
  exact absurd (BitVec.lt_def.mp hsafe.lt) (hout ▸ Nat.lt_irrefl _)

end StableTrade

/-- With four units of the token that is sold, the search settles where it can. -/
theorem StableTrade.settles_of_settlingPoint {t : StableTrade} (h : t.Fits)
    (hunits : 4 * 10 ^ 18 ≤ t.x1) {y : Nat} (hy : SettlingPoint t.x1 t.k y) : t.Settles := by
  have hbefore : y ≤ t.y0 := by
    by_contra hlt
    have hmono := stableCurve_mono (e := 10 ^ 18) (Nat.le_refl t.x1)
      (Nat.le_sub_one_of_lt (Nat.not_le.mp hlt))
    exact absurd (hy.below hunits) (Nat.not_lt.mpr (k_le_curve.trans hmono))
  have hword : t.y0 < 2 ^ 128 := by
    by_contra hge
    have hsquare := Nat.mul_le_mul (Nat.not_lt.mp hge) (Nat.not_lt.mp hge)
    have hword : 2 ^ 256 ≤ 2 ^ 128 * 2 ^ 128 := by decide
    exact absurd h.point.yy (Nat.not_lt.mpr (hword.trans hsquare))
  exact ⟨y, hy.pos.ne', solveReserve_of_settlingPoint hunits hy hbefore hword⟩

/-- A pool with dust, where the slope rounds to zero. -/
def dustTrade : StableTrade := ⟨10000, 1000, 1000, 18, 18, 5, true⟩

theorem RoundsFit.move {x k rounds y : Nat} (y' : Nat) (hfits : RoundFits x k y)
    (hround : newtonRound x k y = .moves y') (hrest : RoundsFit x k rounds y') :
    RoundsFit x k (rounds + 1) y := by
  refine ⟨hfits, fun next hnext => ?_⟩
  rw [hround] at hnext
  cases hnext
  exact hrest

theorem RoundsFit.last {x k rounds y : Nat} (hfits : RoundFits x k y)
    (hround : newtonRound x k y = .fails ∨ newtonRound x k y = .settles) :
    RoundsFit x k (rounds + 1) y := by
  refine ⟨hfits, fun next hnext => ?_⟩
  rcases hround with hround | hround <;> rw [hround] at hnext <;> cases hnext

theorem dustTrade_fits : dustTrade.Fits where
  reserve0 := by decide
  reserve1 := by decide
  decimals0 := by decide
  decimals1 := by decide
  feeBps := by decide
  fee := by decide
  sold := by decide +kernel
  bought := by decide +kernel
  rounds := .last (by decide +kernel) (.inl rfl)

/-- One unit into a pool of a thousand units of each token. -/
def unitTrade : StableTrade :=
  ⟨1000000000000000000, 1000000000000000000000, 1000000000000000000000, 18, 18, 5, true⟩

theorem unitTrade_fits : unitTrade.Fits where
  reserve0 := by decide
  reserve1 := by decide
  decimals0 := by decide
  decimals1 := by decide
  feeBps := by decide
  fee := by decide +kernel
  sold := by decide +kernel
  bought := by decide +kernel
  rounds := by
    have hx1 : unitTrade.x1 = 1000999500000000000000 := by decide +kernel
    have hk : unitTrade.k = 2000000000000000000000000000000 := by decide +kernel
    have hy0 : unitTrade.y0 = 1000000000000000000000 := by decide +kernel
    rw [hx1, hk, hy0]
    exact .move 999001248626747628324 (by decide +kernel) (by decide +kernel) <|
      .move 999000500000919331013 (by decide +kernel) (by decide +kernel) <|
      .move 999000500000499000750 (by decide +kernel) (by decide +kernel) <|
      .last (by decide +kernel) (.inr (by decide +kernel))

end ArbBot
