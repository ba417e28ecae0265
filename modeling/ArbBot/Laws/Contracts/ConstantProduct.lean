import ArbBot.Calculation.V2
import ArbBot.Contracts.FlashQuoter
import ArbBot.Contracts.V2ArbBot.Swaps
import ArbBot.Lib.ConstantProduct

/-!
# Three constant products

`get_amount_out_v2`, `_quoteV2` and `_swapV2Pair` compute the constant-product rule in words. The
checked two have a value exactly where the words fit, and there all three are the rule.
-/

namespace ArbBot

open Lib
open Lib.ConstantProduct (swapOut)

/-- The words the rule goes through fit, and the divisor is not zero. -/
structure ProductFits (factor : Nat) (amountIn reserveIn reserveOut : U256) : Prop where
  divisor : 0 < reserveIn.toNat * 10000 + amountIn.toNat * factor
  denominator : reserveIn.toNat * 10000 + amountIn.toNat * factor < 2 ^ 256
  numerator : amountIn.toNat * factor * reserveOut.toNat < 2 ^ 256

variable {amountIn reserveIn reserveOut out : U256}

theorem toNat_ofNat_uint32 (fee : UInt32) : (BitVec.ofNat 256 fee.toNat).toNat = fee.toNat :=
  toNat_ofNat_of_lt (fee.toNat_lt.trans (by decide))

/-- The quoter's formula has a value where the words fit, and it is the rule. -/
theorem FlashQuoter.constantProduct_eq_some {fee : UInt32} :
    FlashQuoter.constantProduct amountIn reserveIn reserveOut fee = some out ↔
      fee.toNat ≤ 10000 ∧ ProductFits (10000 - fee.toNat) amountIn reserveIn reserveOut ∧
        out.toNat =
          swapOut (10000 - fee.toNat) 10000 reserveIn.toNat reserveOut.toNat amountIn.toNat := by
  have h10000 : (10000 : U256).toNat = 10000 := rfl
  simp only [FlashQuoter.constantProduct, Option.bind_eq_bind, Option.bind_eq_some_iff,
    checkedSub_eq_some, checkedMul_eq_some, checkedAdd_eq_some, checkedDiv_eq_some,
    toNat_ofNat_uint32, h10000]
  constructor
  · rintro ⟨factor, hfactor, numerator, hnumerator, scaled, hscaled, denominator, hdenominator,
      product, hproduct, hpos, hout⟩
    obtain hfactor : factor.toNat = 10000 - fee.toNat := by omega
    rw [hfactor] at hnumerator
    rw [hscaled, hnumerator] at hdenominator
    rw [hnumerator] at hproduct
    refine ⟨by omega, ⟨hdenominator ▸ hpos, hdenominator ▸ denominator.isLt,
      hproduct ▸ product.isLt⟩, ?_⟩
    rw [hout, hproduct, hdenominator, swapOut]
  · rintro ⟨hfee, hfits, hout⟩
    have hdenominator := hfits.denominator
    refine ⟨.ofNat 256 (10000 - fee.toNat), ?_, .ofNat 256 (amountIn.toNat * (10000 - fee.toNat)),
      ?_, .ofNat 256 (reserveIn.toNat * 10000), ?_, .ofNat 256 (reserveIn.toNat * 10000 +
      amountIn.toNat * (10000 - fee.toNat)), ?_, .ofNat 256 (amountIn.toNat *
      (10000 - fee.toNat) * reserveOut.toNat), ?_, ?_, ?_⟩
    all_goals simp only [toNat_ofNat_of_lt hdenominator, toNat_ofNat_of_lt hfits.numerator,
      toNat_ofNat_of_lt (Nat.lt_of_le_of_lt (Nat.le_add_left _ _) hdenominator),
      toNat_ofNat_of_lt (Nat.lt_of_le_of_lt (Nat.le_add_right _ _) hdenominator),
      toNat_ofNat_of_lt (show 10000 - fee.toNat < 2 ^ 256 by omega)]
    · omega
    · exact hfits.divisor
    · rw [hout, swapOut]

/-- The bot multiplies and scales in another order, over the same words. -/
theorem V2ArbBot.constantProduct_eq_quoter (amountIn reserveIn reserveOut : U256) (fee : UInt32) :
    V2ArbBot.constantProduct amountIn reserveIn reserveOut (BitVec.ofNat 256 fee.toNat) =
      FlashQuoter.constantProduct amountIn reserveIn reserveOut fee := by
  refine Option.ext fun out => ?_
  simp only [V2ArbBot.constantProduct, FlashQuoter.constantProduct, Option.bind_eq_bind,
    Option.bind_eq_some_iff]
  constructor
  · rintro ⟨base, hbase, fee, hfee, product, hproduct, scaled, hscaled, denominator, hdenominator,
      hout⟩
    exact ⟨base, hbase, fee, hfee, scaled, hscaled, denominator, hdenominator, product, hproduct,
      hout⟩
  · rintro ⟨base, hbase, fee, hfee, scaled, hscaled, denominator, hdenominator, product, hproduct,
      hout⟩
    exact ⟨base, hbase, fee, hfee, product, hproduct, scaled, hscaled, denominator, hdenominator,
      hout⟩

/-- The estimator's formula wraps, and is the rule where the words fit. -/
theorem toNat_getAmountOutV2 {factor : UInt64} (hin : reserveIn ≠ 0) (hout : reserveOut ≠ 0)
    (hfits : ProductFits factor.toNat amountIn reserveIn reserveOut) :
    (getAmountOutV2 amountIn reserveIn reserveOut factor).toNat =
      swapOut factor.toNat 10000 reserveIn.toNat reserveOut.toNat amountIn.toNat := by
  unfold getAmountOutV2
  by_cases hamount : amountIn = 0
  · simp [hamount]
  have hfactor : (BitVec.ofNat 256 factor.toNat).toNat = factor.toNat :=
    toNat_ofNat_of_lt (factor.toNat_lt.trans (by decide))
  have h10000 : (10000 : U256).toNat = 10000 := rfl
  have hwithFee : (amountIn * BitVec.ofNat 256 factor.toNat).toNat =
      amountIn.toNat * factor.toNat := by
    rw [BitVec.toNat_mul, hfactor, Nat.mod_eq_of_lt]
    exact Nat.lt_of_le_of_lt (Nat.le_add_left _ _) hfits.denominator
  have hscaled : (reserveIn * 10000).toNat = reserveIn.toNat * 10000 := by
    rw [BitVec.toNat_mul, h10000, Nat.mod_eq_of_lt]
    exact Nat.lt_of_le_of_lt (Nat.le_add_right _ _) hfits.denominator
  have hnumerator : (amountIn * BitVec.ofNat 256 factor.toNat * reserveOut).toNat =
      amountIn.toNat * factor.toNat * reserveOut.toNat := by
    rw [BitVec.toNat_mul, hwithFee, Nat.mod_eq_of_lt hfits.numerator]
  have hdenominator : (reserveIn * 10000 + amountIn * BitVec.ofNat 256 factor.toNat).toNat =
      reserveIn.toNat * 10000 + amountIn.toNat * factor.toNat := by
    rw [BitVec.toNat_add, hscaled, hwithFee, Nat.mod_eq_of_lt hfits.denominator]
  have hpos : reserveIn * 10000 + amountIn * BitVec.ofNat 256 factor.toNat ≠ 0 := by
    intro hzero
    have := hfits.divisor
    rw [← hdenominator, hzero] at this
    exact absurd this (by decide)
  rw [if_neg (not_or.mpr ⟨hamount, not_or.mpr ⟨hin, hout⟩⟩)]
  simp only [hpos, if_false]
  rw [BitVec.toNat_udiv, hnumerator, hdenominator, swapOut]

/-- Where the contract has a value for a fee, the estimator with the complement of that fee has
the same. -/
theorem getAmountOutV2_eq_of_quote {fee : UInt32} {factor : UInt64} (hin : reserveIn ≠ 0)
    (hout : reserveOut ≠ 0) (hfactor : factor.toNat = 10000 - fee.toNat)
    (h : FlashQuoter.constantProduct amountIn reserveIn reserveOut fee = some out) :
    getAmountOutV2 amountIn reserveIn reserveOut factor = out := by
  obtain ⟨_, hfits, hvalue⟩ := FlashQuoter.constantProduct_eq_some.mp h
  refine BitVec.eq_of_toNat_eq ?_
  rw [hvalue, toNat_getAmountOutV2 hin hout (hfactor ▸ hfits), hfactor]

/-- The words fit for reserves and amounts of 112 bits, and for the sums of two of them. -/
theorem ProductFits.of_113 {factor : Nat} (hin : reserveIn ≠ 0) (hfactor : factor ≤ 10000)
    (hamount : amountIn.toNat < 2 ^ 113) (hreserveIn : reserveIn.toNat < 2 ^ 113)
    (hreserveOut : reserveOut.toNat < 2 ^ 113) :
    ProductFits factor amountIn reserveIn reserveOut := by
  have hpos : 0 < reserveIn.toNat := by
    refine Nat.pos_of_ne_zero fun hzero => hin (BitVec.eq_of_toNat_eq ?_)
    rw [hzero]
    rfl
  have hwithFee : amountIn.toNat * factor ≤ 2 ^ 113 * 10000 := Nat.mul_le_mul hamount.le hfactor
  have hnumerator : amountIn.toNat * factor * reserveOut.toNat ≤ 2 ^ 113 * 10000 * 2 ^ 113 :=
    Nat.mul_le_mul hwithFee hreserveOut.le
  exact ⟨by omega, by omega, by omega⟩

theorem ProductFits.of_112 {factor : Nat} (hin : reserveIn ≠ 0) (hfactor : factor ≤ 10000)
    (hamount : amountIn.toNat < 2 ^ 112) (hreserveIn : reserveIn.toNat < 2 ^ 112)
    (hreserveOut : reserveOut.toNat < 2 ^ 112) :
    ProductFits factor amountIn reserveIn reserveOut :=
  .of_113 hin hfactor (by omega) (by omega) (by omega)

/-- Less fits too. -/
theorem ProductFits.mono {factor factor' : Nat} {amountIn' : U256}
    (hfits : ProductFits factor amountIn reserveIn reserveOut) (hin : 0 < reserveIn.toNat)
    (h : amountIn'.toNat * factor' ≤ amountIn.toNat * factor) :
    ProductFits factor' amountIn' reserveIn reserveOut where
  divisor := by omega
  denominator := Nat.lt_of_le_of_lt (Nat.add_le_add_left h _) hfits.denominator
  numerator := Nat.lt_of_le_of_lt (Nat.mul_le_mul_right _ h) hfits.numerator

end ArbBot
