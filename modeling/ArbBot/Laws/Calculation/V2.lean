import ArbBot.Laws.Contracts.ConstantProduct

/-!
# The constant-product quotes as laws

`get_amount_out_v2` on the reserves a pair can hold is the rule in exact numbers, so the laws of
the rule hold of the words. `get_amount_in_v2` inverts it up to one unit.
-/

namespace ArbBot

open Lib
open Lib.ConstantProduct (swapOut swapIn)

/-- A reserve a pair can hold, other than none. -/
structure PairReserve (reserve : U256) : Prop where
  ne_zero : reserve ≠ 0
  lt : reserve.toNat < 2 ^ 112

theorem PairReserve.pos {reserve : U256} (h : PairReserve reserve) : 0 < reserve.toNat :=
  toNat_pos h.ne_zero

variable {amountIn amountOut reserveIn reserveOut a b : U256} {factor : UInt64}

/-! ## Words and numbers -/

/-- The quote on numbers of 113 bits, which hold the sums of two reserves. -/
theorem toNat_getAmountOutV2_of_113 (hin : reserveIn ≠ 0) (hout : reserveOut ≠ 0)
    (hfactor : factor.toNat ≤ 10000) (hamount : amountIn.toNat < 2 ^ 113)
    (hreserveIn : reserveIn.toNat < 2 ^ 113) (hreserveOut : reserveOut.toNat < 2 ^ 113) :
    (getAmountOutV2 amountIn reserveIn reserveOut factor).toNat =
      swapOut factor.toNat 10000 reserveIn.toNat reserveOut.toNat amountIn.toNat :=
  toNat_getAmountOutV2 hin hout (.of_113 hin hfactor hamount hreserveIn hreserveOut)

theorem toNat_getAmountOutV2_of_pair (hin : PairReserve reserveIn) (hout : PairReserve reserveOut)
    (hfactor : factor.toNat ≤ 10000) (hamount : amountIn.toNat < 2 ^ 112) :
    (getAmountOutV2 amountIn reserveIn reserveOut factor).toNat =
      swapOut factor.toNat 10000 reserveIn.toNat reserveOut.toNat amountIn.toNat :=
  toNat_getAmountOutV2 hin.ne_zero hout.ne_zero
    (.of_112 hin.ne_zero hfactor hamount hin.lt hout.lt)

/-- A quote whose words fit is below the reserve. -/
theorem getAmountOutV2_lt_of_fits (hin : reserveIn ≠ 0) (hout : reserveOut ≠ 0)
    (hfits : ProductFits factor.toNat amountIn reserveIn reserveOut) :
    getAmountOutV2 amountIn reserveIn reserveOut factor < reserveOut := by
  rw [BitVec.lt_def, toNat_getAmountOutV2 hin hout hfits]
  exact ConstantProduct.swapOut_lt (toNat_pos hin) (by decide) (toNat_pos hout)

theorem toNat_add_of_112 (ha : a.toNat < 2 ^ 112) (hb : b.toNat < 2 ^ 112) :
    (a + b).toNat = a.toNat + b.toNat :=
  toNat_add_of_lt (by omega)

theorem toNat_sub_of_lt (h : a < b) : (b - a).toNat = b.toNat - a.toNat :=
  BitVec.toNat_sub_of_le (BitVec.le_of_lt h)

/-- The quote on the reserves that a first swap of `a` leaves. -/
theorem toNat_getAmountOutV2_after (hin : PairReserve reserveIn) (hout : PairReserve reserveOut)
    (hfactor : factor.toNat ≤ 10000) (ha : a.toNat < 2 ^ 112) (hb : b.toNat < 2 ^ 112)
    (hlt : amountOut < reserveOut) :
    (getAmountOutV2 b (reserveIn + a) (reserveOut - amountOut) factor).toNat =
      swapOut factor.toNat 10000 (reserveIn.toNat + a.toNat)
        (reserveOut.toNat - amountOut.toNat) b.toNat := by
  have hsum := toNat_add_of_112 hin.lt ha
  have hrest := toNat_sub_of_lt hlt
  have hpos := hin.pos
  have hreserveIn := hin.lt
  have hreserveOut := hout.lt
  rw [BitVec.lt_def] at hlt
  rw [← hsum, ← hrest]
  apply toNat_getAmountOutV2_of_113 _ _ hfactor
  · omega
  · omega
  · omega
  · intro hzero
    rw [hzero] at hsum
    simp at hsum
    omega
  · intro hzero
    rw [hzero] at hrest
    simp at hrest
    omega

/-! ## The constant product -/

/-- **The constant-product law of `get_amount_out_v2`**: on the reserves of a pair no product
wraps, the output stays below the reserve, the product of the reserves does not fall, the output
grows with the amount and with the fee factor, and two swaps in a row pay no more than one of both
amounts. -/
theorem getAmountOutV2_constantProduct (hin : PairReserve reserveIn) (hout : PairReserve reserveOut)
    (hamount : a.toNat < 2 ^ 112) (hfactor : factor.toNat ≤ 10000) :
    ProductFits factor.toNat a reserveIn reserveOut ∧
    getAmountOutV2 a reserveIn reserveOut factor < reserveOut ∧
    reserveIn.toNat * reserveOut.toNat ≤ (reserveIn.toNat + a.toNat) *
      (reserveOut.toNat - (getAmountOutV2 a reserveIn reserveOut factor).toNat) ∧
    (∀ (b : U256) (factor' : UInt64), b.toNat < 2 ^ 112 → factor'.toNat ≤ 10000 →
      a ≤ b → factor ≤ factor' →
      getAmountOutV2 a reserveIn reserveOut factor ≤
        getAmountOutV2 b reserveIn reserveOut factor') ∧
    ∀ b : U256, b.toNat < 2 ^ 112 →
      (getAmountOutV2 a reserveIn reserveOut factor).toNat +
          (getAmountOutV2 b (reserveIn + a)
            (reserveOut - getAmountOutV2 a reserveIn reserveOut factor) factor).toNat ≤
        (getAmountOutV2 (a + b) reserveIn reserveOut factor).toNat := by
  have hfits : ProductFits factor.toNat a reserveIn reserveOut :=
    .of_112 hin.ne_zero hfactor hamount hin.lt hout.lt
  have hvalue := toNat_getAmountOutV2 hin.ne_zero hout.ne_zero hfits
  have hlt := getAmountOutV2_lt_of_fits hin.ne_zero hout.ne_zero hfits
  refine ⟨hfits, hlt, ?_, ?_, ?_⟩
  · rw [hvalue]
    exact ConstantProduct.swapOut_product hfactor hin.pos (by decide) hout.pos
  · intro b factor' hb hfactor' hab hfactors
    rw [BitVec.le_def, hvalue, toNat_getAmountOutV2_of_pair hin hout hfactor' hb]
    apply ConstantProduct.swapOut_mono _ hin.pos (by decide)
    exact Nat.mul_le_mul (BitVec.le_def.mp hab) (UInt64.le_iff_toNat_le.mp hfactors)
  · intro b hb
    have hreserveIn := hin.lt
    have hreserveOut := hout.lt
    have hsum := toNat_add_of_112 hamount hb
    rw [toNat_getAmountOutV2_after hin hout hfactor hamount hb hlt, hvalue,
      toNat_getAmountOutV2_of_113 hin.ne_zero hout.ne_zero hfactor (by omega) (by omega)
        (by omega), hsum]
    exact ConstantProduct.swapOut_split hfactor hin.pos (by decide) hout.pos _ _

theorem getAmountOutV2_constantProduct_example :
    (1000 : U256).toNat * (2000 : U256).toNat ≤ ((1000 : U256).toNat + (10 : U256).toNat) *
      ((2000 : U256).toNat - (getAmountOutV2 10 1000 2000 9970).toNat) :=
  (getAmountOutV2_constantProduct (a := 10) ⟨by decide, by decide⟩
    ⟨by decide, by decide⟩ (by decide) (by decide)).2.2.1

/-! ## Exact outputs -/

/-- The exact-output quote on the reserves of a pair. -/
theorem toNat_getAmountInV2 (hin : PairReserve reserveIn) (hout : PairReserve reserveOut)
    (hpos : 0 < factor.toNat) (hfactor : factor.toNat ≤ 10000) (hamount : amountOut ≠ 0)
    (hlt : amountOut < reserveOut) :
    (getAmountInV2 amountOut reserveIn reserveOut factor).toNat =
      swapIn factor.toNat 10000 reserveIn.toNat reserveOut.toNat amountOut.toNat := by
  have hrest := toNat_sub_of_lt hlt
  have hreserveIn := hin.lt
  have hreserveOut := hout.lt
  have hword : (BitVec.ofNat 256 factor.toNat).toNat = factor.toNat :=
    toNat_ofNat_of_lt (factor.toNat_lt.trans (by decide))
  have h10000 : (10000 : U256).toNat = 10000 := rfl
  have hltNat := BitVec.lt_def.mp hlt
  have hproduct : reserveIn.toNat * amountOut.toNat ≤ 2 ^ 112 * 2 ^ 112 :=
    Nat.mul_le_mul hreserveIn.le (by omega)
  have hshare : (reserveOut.toNat - amountOut.toNat) * factor.toNat ≤ 2 ^ 112 * 10000 :=
    Nat.mul_le_mul (by omega) hfactor
  have hnumerator : (reserveIn * amountOut * 10000).toNat =
      reserveIn.toNat * amountOut.toNat * 10000 := by
    rw [BitVec.toNat_mul, BitVec.toNat_mul, h10000, Nat.mod_eq_of_lt (by omega),
      Nat.mod_eq_of_lt (by omega)]
  have hdenominator : ((reserveOut - amountOut) * BitVec.ofNat 256 factor.toNat).toNat =
      (reserveOut.toNat - amountOut.toNat) * factor.toNat := by
    rw [BitVec.toNat_mul, hrest, hword, Nat.mod_eq_of_lt (by omega)]
  have hdivisor : 0 < (reserveOut.toNat - amountOut.toNat) * factor.toNat :=
    Nat.mul_pos (by omega) hpos
  have hnonzero : (reserveOut - amountOut) * BitVec.ofNat 256 factor.toNat ≠ 0 := by
    intro hzero
    rw [hzero] at hdenominator
    simp at hdenominator
    omega
  have hquotient : reserveIn.toNat * amountOut.toNat * 10000 /
      ((reserveOut.toNat - amountOut.toNat) * factor.toNat) ≤ 2 ^ 112 * 2 ^ 112 * 10000 :=
    (Nat.div_le_self _ _).trans (Nat.mul_le_mul_right _ hproduct)
  unfold getAmountInV2
  rw [if_neg (not_or.mpr ⟨hamount, not_or.mpr ⟨hin.ne_zero, BitVec.not_le.mpr hlt⟩⟩)]
  simp only [hnonzero, if_false]
  rw [BitVec.toNat_add, BitVec.toNat_udiv, hnumerator, hdenominator, swapIn]
  apply Nat.mod_eq_of_lt
  change _ + 1 < _
  omega

/-- Where the divisor does not wrap, a numerator that does only takes away from the output. -/
theorem getAmountOutV2_le
    (hfits : reserveIn.toNat * 10000 + amountIn.toNat * factor.toNat < 2 ^ 256) :
    (getAmountOutV2 amountIn reserveIn reserveOut factor).toNat ≤
      swapOut factor.toNat 10000 reserveIn.toNat reserveOut.toNat amountIn.toNat := by
  have hword : (BitVec.ofNat 256 factor.toNat).toNat = factor.toNat :=
    toNat_ofNat_of_lt (factor.toNat_lt.trans (by decide))
  have h10000 : (10000 : U256).toNat = 10000 := rfl
  have hwithFee : (amountIn * BitVec.ofNat 256 factor.toNat).toNat =
      amountIn.toNat * factor.toNat := by
    rw [BitVec.toNat_mul, hword, Nat.mod_eq_of_lt]
    exact Nat.lt_of_le_of_lt (Nat.le_add_left _ _) hfits
  have hscaled : (reserveIn * 10000).toNat = reserveIn.toNat * 10000 := by
    rw [BitVec.toNat_mul, h10000, Nat.mod_eq_of_lt]
    exact Nat.lt_of_le_of_lt (Nat.le_add_right _ _) hfits
  have hdenominator : (reserveIn * 10000 + amountIn * BitVec.ofNat 256 factor.toNat).toNat =
      reserveIn.toNat * 10000 + amountIn.toNat * factor.toNat := by
    rw [BitVec.toNat_add, hscaled, hwithFee, Nat.mod_eq_of_lt hfits]
  unfold getAmountOutV2
  split
  · exact Nat.zero_le _
  · simp only
    split
    · exact Nat.zero_le _
    · rw [BitVec.toNat_udiv, BitVec.toNat_mul, hwithFee, hdenominator, swapOut]
      exact Nat.div_le_div_right (Nat.mod_le _ _)

/-- **Minimality**: whatever pays for the output, wrapped or not, is at most one unit below the
exact-output quote. -/
theorem getAmountInV2_le (hin : PairReserve reserveIn) (hout : PairReserve reserveOut)
    (hpos : 0 < factor.toNat) (hfactor : factor.toNat ≤ 10000) (hamount : amountOut ≠ 0)
    (hlt : amountOut < reserveOut)
    (h : amountOut ≤ getAmountOutV2 amountIn reserveIn reserveOut factor) :
    (getAmountInV2 amountOut reserveIn reserveOut factor).toNat ≤ amountIn.toNat + 1 := by
  have hreserveIn := hin.lt
  have hltNat := BitVec.lt_def.mp hlt
  have hreserveOut := hout.lt
  rw [toNat_getAmountInV2 hin hout hpos hfactor hamount hlt]
  by_cases hfits : reserveIn.toNat * 10000 + amountIn.toNat * factor.toNat < 2 ^ 256
  · apply ConstantProduct.swapIn_le hpos hin.pos (by decide) (BitVec.lt_def.mp hlt)
    exact (BitVec.le_def.mp h).trans (getAmountOutV2_le hfits)
  · -- an amount whose share does not fit is above every quote
    have hproduct : reserveIn.toNat * amountOut.toNat ≤ 2 ^ 112 * 2 ^ 112 :=
      Nat.mul_le_mul hreserveIn.le (by omega)
    have hquotient : reserveIn.toNat * amountOut.toNat * 10000 /
        ((reserveOut.toNat - amountOut.toNat) * factor.toNat) ≤ 2 ^ 112 * 2 ^ 112 * 10000 :=
      (Nat.div_le_self _ _).trans (Nat.mul_le_mul_right _ hproduct)
    have hshare : amountIn.toNat * factor.toNat ≤ amountIn.toNat * 10000 :=
      Nat.mul_le_mul_left _ hfactor
    rw [swapIn]
    omega

/-- **`get_amount_in_v2` inverts `get_amount_out_v2`**: where no product leaves the word, the
input asked for pays for the output and no input more than one unit below it does; and quoting an
output back asks for at most one unit more than what paid for it. -/
theorem getAmountInV2_inverts (hin : PairReserve reserveIn) (hout : PairReserve reserveOut)
    (hpos : 0 < factor.toNat) (hfactor : factor.toNat ≤ 10000) :
    (∀ amountOut : U256, 0 < amountOut → amountOut < reserveOut →
      ProductFits factor.toNat (getAmountInV2 amountOut reserveIn reserveOut factor) reserveIn
        reserveOut →
      amountOut ≤ getAmountOutV2 (getAmountInV2 amountOut reserveIn reserveOut factor) reserveIn
          reserveOut factor ∧
        ∀ a : U256, amountOut ≤ getAmountOutV2 a reserveIn reserveOut factor →
          (getAmountInV2 amountOut reserveIn reserveOut factor).toNat - 1 ≤ a.toNat) ∧
    ∀ a : U256, ProductFits factor.toNat a reserveIn reserveOut →
      getAmountOutV2 a reserveIn reserveOut factor ≠ 0 →
      (getAmountInV2 (getAmountOutV2 a reserveIn reserveOut factor) reserveIn reserveOut
        factor).toNat ≤ a.toNat + 1 := by
  constructor
  · intro amountOut hamount hlt hfits
    have hnonzero : amountOut ≠ 0 := (BitVec.ne_of_lt hamount).symm
    constructor
    · rw [BitVec.le_def, toNat_getAmountOutV2 hin.ne_zero hout.ne_zero hfits,
        toNat_getAmountInV2 hin hout hpos hfactor hnonzero hlt]
      exact ConstantProduct.le_swapOut_swapIn hpos hin.pos (by decide) (BitVec.lt_def.mp hlt)
    · intro a hpays
      exact Nat.sub_le_of_le_add (getAmountInV2_le hin hout hpos hfactor hnonzero hlt hpays)
  · intro a hfits hnonzero
    have hlt := getAmountOutV2_lt_of_fits hin.ne_zero hout.ne_zero hfits
    exact getAmountInV2_le hin hout hpos hfactor hnonzero hlt (BitVec.le_refl _)

theorem getAmountInV2_inverts_example :
    (getAmountInV2 (getAmountOutV2 10 1000 2000 9970) 1000 2000 9970).toNat ≤
      (10 : U256).toNat + 1 :=
  (getAmountInV2_inverts ⟨by decide, by decide⟩ ⟨by decide, by decide⟩ (by decide)
    (by decide)).2 10 ⟨by decide, by decide, by decide⟩ (by decide)

end ArbBot
