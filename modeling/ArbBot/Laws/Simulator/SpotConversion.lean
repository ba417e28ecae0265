import ArbBot.Laws.Simulator.PriceCache
import ArbBot.Laws.Calculation.SpotRate
import ArbBot.Lib.TwoFloors

/-!
# The spot price of the simulator and of the rate estimator

`v3_spot_price_convert` multiplies by the square root of the price twice and rounds down each time.
What it loses, what is left after a conversion back, and that the rate estimator converts the unit
of a token by the same formula.
-/

namespace ArbBot

open Lib

namespace Simulator

variable {profit native sqrtPriceX96 : U256} {startIsToken0 : Bool}

/-- The profit at the price of the pool, unrounded. -/
def spotValue (profit sqrtPriceX96 : U256) : Bool → ℚ
  | true => profit.toNat * sqrtPriceX96.toNat ^ 2 / 2 ^ 192
  | false => profit.toNat * 2 ^ 192 / sqrtPriceX96.toNat ^ 2

/-- More than what the two roundings lose. -/
def spotError (sqrtPriceX96 : U256) : Bool → ℚ
  | true => 1 + sqrtPriceX96.toNat / 2 ^ 96
  | false => 1 + 2 ^ 96 / sqrtPriceX96.toNat

/-- The ratio that a conversion applies twice. -/
def spotNum (sqrtPriceX96 : U256) (startIsToken0 : Bool) : Nat :=
  if startIsToken0 then sqrtPriceX96.toNat else 2 ^ 96

def spotDen (sqrtPriceX96 : U256) (startIsToken0 : Bool) : Nat :=
  spotNum sqrtPriceX96 (!startIsToken0)

theorem toNat_v3SpotPriceConvert
    (h : v3SpotPriceConvert profit sqrtPriceX96 startIsToken0 = some native) :
    native.toNat = scaleTwice profit.toNat (spotNum sqrtPriceX96 startIsToken0)
      (spotDen sqrtPriceX96 startIsToken0) := by
  have hexact := v3SpotPriceConvert_exact h
  apply Int.ofNat.inj
  cases startIsToken0 <;>
    simpa [Pricing.exact, scaleTwice, spotNum, spotDen] using hexact

theorem spotValue_eq (profit sqrtPriceX96 : U256) (startIsToken0 : Bool) :
    spotValue profit sqrtPriceX96 startIsToken0 =
      profit.toNat * (spotNum sqrtPriceX96 startIsToken0 / spotDen sqrtPriceX96 startIsToken0) *
        (spotNum sqrtPriceX96 startIsToken0 / spotDen sqrtPriceX96 startIsToken0) := by
  cases startIsToken0 <;> simp [spotValue, spotNum, spotDen] <;> ring

theorem spotError_eq (sqrtPriceX96 : U256) (startIsToken0 : Bool) :
    spotError sqrtPriceX96 startIsToken0 =
      1 + spotNum sqrtPriceX96 startIsToken0 / spotDen sqrtPriceX96 startIsToken0 := by
  cases startIsToken0 <;> norm_num [spotError, spotNum, spotDen]

theorem spotNum_pos (hprice : sqrtPriceX96 ≠ 0) (startIsToken0 : Bool) :
    0 < spotNum sqrtPriceX96 startIsToken0 := by
  cases startIsToken0 with
  | true => exact toNat_pos hprice
  | false => exact Nat.two_pow_pos 96

/-- A conversion there and back. -/
theorem convert_back_le {back : U256} (hprice : sqrtPriceX96 ≠ 0)
    (h : v3SpotPriceConvert profit sqrtPriceX96 startIsToken0 = some native)
    (hback : v3SpotPriceConvert native sqrtPriceX96 (!startIsToken0) = some back) :
    back.toNat ≤ profit.toNat := by
  have hden : spotDen sqrtPriceX96 (!startIsToken0) = spotNum sqrtPriceX96 startIsToken0 := by
    rw [spotDen, Bool.not_not]
  rw [toNat_v3SpotPriceConvert hback, toNat_v3SpotPriceConvert h, hden]
  exact scaleTwice_scaleTwice_le _ (spotNum_pos hprice _) (spotNum_pos hprice _)

/-- The guards of the conversion make no difference where there is a price. -/
theorem convert_unguarded (profit : U256) (hprice : sqrtPriceX96 ≠ 0) :
    v3SpotPriceConvert profit sqrtPriceX96 true =
        ((checkedMul profit sqrtPriceX96).bind fun first =>
          (checkedMul (first >>> 96) sqrtPriceX96).bind fun second => some (second >>> 96)) ∧
      v3SpotPriceConvert profit sqrtPriceX96 false =
        (checkedMul profit q96).bind fun first =>
          (checkedMul (first / sqrtPriceX96) q96).bind fun second =>
            some (second / sqrtPriceX96) := by
  by_cases hprofit : profit = 0
  · subst hprofit
    have hzero : ∀ factor : U256, checkedMul 0 factor = some 0 := by
      intro factor
      simp [checkedMul_eq_some]
    have hshift : (0 : U256) >>> 96 = 0 := by simp
    have hdiv : (0 : U256) / sqrtPriceX96 = 0 := by simp
    have hconvert : ∀ direction, v3SpotPriceConvert 0 sqrtPriceX96 direction = some 0 := by
      intro direction
      unfold v3SpotPriceConvert
      exact if_pos (.inr rfl)
    constructor
    · rw [hconvert, hzero, Option.bind_some, hshift, hzero, Option.bind_some, hshift]
    · rw [hconvert, hzero, Option.bind_some, hdiv, hzero, Option.bind_some, hdiv]
  · have hguard : ¬ (sqrtPriceX96 = 0 ∨ profit = 0) := not_or.mpr ⟨hprice, hprofit⟩
    exact ⟨convert_true hguard, convert_false hguard⟩

/-- The estimator's two products are the conversion of the unit. -/
theorem updateV3SpotRate_eq {est : RateEstimator} {db : StateDb} {pool : Address}
    {tick : BitVec 32} {decimals0 decimals1 : UInt8} {fee : UInt32} (hprice : sqrtPriceX96 ≠ 0)
    (hslot0 : db.readV3Slot0 pool = some (sqrtPriceX96, tick)) :
    est.updateV3SpotRate db pool decimals0 decimals1 fee =
      (est.insertSpot pool true decimals1 fee
        (v3SpotPriceConvert (decimalReference decimals0) sqrtPriceX96 true)).insertSpot pool false
          decimals0 fee (v3SpotPriceConvert (decimalReference decimals1) sqrtPriceX96 false) := by
  rw [(convert_unguarded _ hprice).1, (convert_unguarded _ hprice).2,
    RateEstimator.updateV3SpotRate, hslot0]
  exact if_neg hprice

/-- **The conversion is nearly exact**, and the estimator's. -/
theorem v3SpotPriceConvert_nearly_exact (hprice : sqrtPriceX96 ≠ 0) :
    (∀ profit startIsToken0 native,
      v3SpotPriceConvert profit sqrtPriceX96 startIsToken0 = some native →
        (native.toNat : ℚ) ≤ spotValue profit sqrtPriceX96 startIsToken0 ∧
        spotValue profit sqrtPriceX96 startIsToken0 <
          native.toNat + spotError sqrtPriceX96 startIsToken0 ∧
        ∀ back, v3SpotPriceConvert native sqrtPriceX96 (!startIsToken0) = some back →
          back.toNat ≤ profit.toNat) ∧
    ∀ (est : RateEstimator) (db : StateDb) pool tick decimals0 decimals1 fee,
      db.readV3Slot0 pool = some (sqrtPriceX96, tick) →
        est.updateV3SpotRate db pool decimals0 decimals1 fee =
          (est.insertSpot pool true decimals1 fee
            (v3SpotPriceConvert (decimalReference decimals0) sqrtPriceX96 true)).insertSpot pool
              false decimals0 fee
              (v3SpotPriceConvert (decimalReference decimals1) sqrtPriceX96 false) := by
  constructor
  · intro profit startIsToken0 native h
    rw [spotValue_eq, spotError_eq, toNat_v3SpotPriceConvert h]
    exact ⟨scaleTwice_le _ _ _, lt_scaleTwice_add _ _ _, fun back hback =>
      convert_back_le hprice h hback⟩
  · intro est db pool tick decimals0 decimals1 fee hslot0
    exact updateV3SpotRate_eq hprice hslot0

/-- At a price of four, 3 of token 0 are worth 12 of token 1. -/
theorem v3SpotPriceConvert_nearly_exact_two :
    (12 : ℚ) ≤ spotValue 3 (2 * q96) true ∧
      spotValue 3 (2 * q96) true < 12 + spotError (2 * q96) true := by
  have hconvert : v3SpotPriceConvert 3 (2 * q96) true = some 12 := by decide +kernel
  obtain ⟨hle, hlt, -⟩ :=
    (v3SpotPriceConvert_nearly_exact (by decide +kernel : 2 * q96 ≠ 0)).1 3 true 12 hconvert
  exact ⟨hle, hlt⟩

end Simulator

end ArbBot
