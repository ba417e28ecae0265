import ArbBot.Laws.Calculation.Rates
import Mathlib.Tactic.Ring

/-!
# Spot rates as numbers

What `normalized_rate` and `update_v3_spot_rate` compute, as natural numbers: the power of ten
wraps, and an amount whose scaled value leaves the word is shifted before it is scaled. A unit of
the token that is sold goes through the price in two steps, each of them rounded down, then the fee
is taken off. The rate is at most the price less the fee, but for powers of ten that wrap and for
shifts that cut off a part of one (`SpotSale.PlainUnits.atMost_rate`).
-/

namespace ArbBot

open Lib

/-- A power of ten as a word. -/
def wordPow10 (decimals : Nat) : Nat := 10 ^ decimals % 2 ^ 256

/-- The normalised rate of an amount out. -/
def normalized (amount decimals : Nat) : Nat :=
  if amount * 10 ^ 18 < 2 ^ 256 then amount * 10 ^ 18 / wordPow10 decimals
  else amount / 2 ^ 64 * 10 ^ 18 / (wordPow10 decimals / 2 ^ 64)

/-- The normalisation divides by the power of ten itself: it is a word, and where the amount is
shifted, either the shift leaves nothing of it or it cuts nothing off. -/
def Plain (amount decimals : Nat) : Prop :=
  decimals ≤ 77 ∧ (amount * 10 ^ 18 < 2 ^ 256 ∨ decimals < 20 ∨ 64 ≤ decimals)

/-! ## Normalised rates -/

theorem toNat_decimalReference_eq (decimals : UInt8) :
    (decimalReference decimals).toNat = wordPow10 decimals.toNat := by
  rw [decimalReference, pow10, BitVec.toNat_ofNat]
  rfl

theorem toNat_normalizedRate (amount : U256) (decimals : UInt8) :
    (normalizedRate amount decimals).toNat = normalized amount.toNat decimals.toNat := by
  have hdec := toNat_decimalReference_eq decimals
  have hscale := toNat_rateScale
  rw [normalizedRate, normalized, ← hdec, ← hscale]
  generalize decimalReference decimals = dec
  generalize rateScale = scale at hscale ⊢
  have hshift : ∀ x : U256, (x >>> 64).toNat = x.toNat / 2 ^ 64 := fun x =>
    toNat_ushiftRight_eq_div x 64
  split
  · rename_i hzero
    rcases hzero with rfl | rfl <;> simp
  by_cases hfits : amount.toNat * scale.toNat < 2 ^ 256
  · obtain ⟨scaled, hscaled, hvalue⟩ := exists_checkedMul hfits
    rw [if_pos hfits, hscaled, ← hvalue]
    exact BitVec.toNat_udiv
  · rw [if_neg hfits, checkedMul_eq_none (Nat.not_lt.mp hfits)]
    have hlt : (amount >>> 64).toNat * scale.toNat < 2 ^ 256 := by
      have := amount.isLt
      rw [hshift, hscale]
      omega
    dsimp only
    split
    · rename_i hnone
      have hdiv : dec.toNat / 2 ^ 64 = 0 := by rw [← hshift, hnone]; rfl
      rw [hdiv, Nat.div_zero]
      rfl
    · rw [BitVec.toNat_udiv, toNat_mul_of_lt hlt, hshift, hshift]

/-- A normalised rate is at most the amount in units. -/
theorem normalized_mul_le {amount decimals : Nat} (hplain : Plain amount decimals) :
    normalized amount decimals * 10 ^ decimals ≤ amount * 10 ^ 18 := by
  obtain ⟨hword, hshift⟩ := hplain
  have hpow : wordPow10 decimals = 10 ^ decimals := by
    refine Nat.mod_eq_of_lt (Nat.lt_of_le_of_lt (Nat.pow_le_pow_right (by decide) hword) ?_)
    decide
  unfold normalized
  rw [hpow]
  split
  · exact Nat.div_mul_le_self _ _
  · rename_i hwide
    rcases hshift.resolve_left hwide with hsmall | hlarge
    · -- nothing is left of the power
      have hle : 10 ^ decimals ≤ 10 ^ 19 :=
        Nat.pow_le_pow_right (by decide) (Nat.le_of_lt_succ hsmall)
      have hgone : 10 ^ decimals / 2 ^ 64 = 0 :=
        Nat.div_eq_of_lt (Nat.lt_of_le_of_lt hle (by decide))
      rw [hgone, Nat.div_zero, Nat.zero_mul]
      exact Nat.zero_le _
    · -- the power is a multiple of what is cut off
      obtain ⟨rest, hrest⟩ : 2 ^ 64 ∣ 10 ^ decimals :=
        (pow_dvd_pow 2 hlarge).trans (pow_dvd_pow_of_dvd (by decide) decimals)
      rw [hrest, Nat.mul_div_cancel_left rest (by decide)]
      calc amount / 2 ^ 64 * 10 ^ 18 / rest * (2 ^ 64 * rest)
          = amount / 2 ^ 64 * 10 ^ 18 / rest * rest * 2 ^ 64 := by ring
        _ ≤ amount / 2 ^ 64 * 10 ^ 18 * 2 ^ 64 := Nat.mul_le_mul_right _ (Nat.div_mul_le_self _ _)
        _ = amount / 2 ^ 64 * 2 ^ 64 * 10 ^ 18 := by ring
        _ ≤ amount * 10 ^ 18 := Nat.mul_le_mul_right _ (Nat.div_mul_le_self _ _)

/-! ## The price in two steps -/

/-- A unit of a token that is sold at a spot price of `num ^ 2 / den ^ 2`, with the fee. -/
structure SpotSale where
  decimalsIn : Nat
  decimalsOut : Nat
  num : Nat
  den : Nat
  fee : Nat

namespace SpotSale

variable (s : SpotSale)

/-- The unit as a word. -/
def unit : Nat := wordPow10 s.decimalsIn

/-- Both products of the two steps fit into a word. -/
def Fits : Prop :=
  s.unit * s.num < 2 ^ 256 ∧ s.unit * s.num / s.den * s.num < 2 ^ 256

instance : Decidable s.Fits :=
  inferInstanceAs (Decidable (s.unit * s.num < 2 ^ 256 ∧ s.unit * s.num / s.den * s.num < 2 ^ 256))

/-- The amount out: two steps, and the fee, whose product wraps. -/
def amountOut : Nat :=
  s.unit * s.num / s.den * s.num / s.den * (1000000 - s.fee) % 2 ^ 256 / 1000000

/-- The rate, or zero where a step does not fit. -/
def rate : Nat := if s.Fits then normalized s.amountOut s.decimalsOut else 0

/-- The rate is at most the exact one: the price in units, less the fee. -/
def AtMost (rate : Nat) : Prop :=
  rate * (10 ^ s.decimalsOut * (s.den ^ 2 * 1000000)) ≤
    10 ^ 18 * (10 ^ s.decimalsIn * (s.num ^ 2 * (1000000 - s.fee)))

variable {s}

theorem unit_le : s.unit ≤ 10 ^ s.decimalsIn := Nat.mod_le _ _

/-- The amount out is worth no more than the unit. -/
theorem amountOut_mul_le :
    s.amountOut * (s.den ^ 2 * 1000000) ≤ 10 ^ s.decimalsIn * (s.num ^ 2 * (1000000 - s.fee)) := by
  have hfee : s.amountOut * 1000000 ≤
      s.unit * s.num / s.den * s.num / s.den * (1000000 - s.fee) :=
    (Nat.div_mul_le_self _ _).trans (Nat.mod_le _ _)
  have hfirst : s.unit * s.num / s.den * s.den ≤ s.unit * s.num := Nat.div_mul_le_self _ _
  have hsecond : s.unit * s.num / s.den * s.num / s.den * s.den ≤ s.unit * s.num / s.den * s.num :=
    Nat.div_mul_le_self _ _
  generalize s.unit * s.num / s.den * s.num / s.den = out at hfee hsecond
  generalize s.unit * s.num / s.den = mid at hfirst hsecond
  calc s.amountOut * (s.den ^ 2 * 1000000)
      = s.amountOut * 1000000 * s.den ^ 2 := by ring
    _ ≤ out * (1000000 - s.fee) * s.den ^ 2 := Nat.mul_le_mul_right _ hfee
    _ = out * s.den * (s.den * (1000000 - s.fee)) := by ring
    _ ≤ mid * s.num * (s.den * (1000000 - s.fee)) := Nat.mul_le_mul_right _ hsecond
    _ = mid * s.den * (s.num * (1000000 - s.fee)) := by ring
    _ ≤ s.unit * s.num * (s.num * (1000000 - s.fee)) := Nat.mul_le_mul_right _ hfirst
    _ = s.unit * (s.num ^ 2 * (1000000 - s.fee)) := by ring
    _ ≤ 10 ^ s.decimalsIn * (s.num ^ 2 * (1000000 - s.fee)) := Nat.mul_le_mul_right _ unit_le

theorem atMost_zero : s.AtMost 0 := by
  rw [AtMost, Nat.zero_mul]
  exact Nat.zero_le _

/-- An amount is worth no more than the unit, at the price less the fee. -/
def Worth (s : SpotSale) (amount : Nat) : Prop :=
  amount * (s.den ^ 2 * 1000000) ≤ 10 ^ s.decimalsIn * (s.num ^ 2 * (1000000 - s.fee))

/-- No amount that the unit is worth is distorted by its normalisation: the power of ten is a word,
and where the unit is worth more than is scaled without a shift, either the shift leaves nothing of
the power or it cuts nothing off. -/
def PlainUnits (s : SpotSale) : Prop :=
  s.decimalsOut ≤ 77 ∧
    (10 ^ s.decimalsIn * s.num ^ 2 * 10 ^ 18 < 2 ^ 256 * s.den ^ 2 ∨ s.decimalsOut < 20 ∨
      64 ≤ s.decimalsOut)

instance (s : SpotSale) : Decidable s.PlainUnits :=
  inferInstanceAs (Decidable (_ ∧ (_ ∨ _ ∨ _)))

theorem PlainUnits.plain (h : s.PlainUnits) {amount : Nat} (hworth : s.Worth amount) :
    Plain amount s.decimalsOut := by
  refine ⟨h.1, h.2.imp_left fun hsmall => ?_⟩
  have hfee : amount * s.den ^ 2 * 1000000 ≤ 10 ^ s.decimalsIn * s.num ^ 2 * 1000000 :=
    calc amount * s.den ^ 2 * 1000000
        = amount * (s.den ^ 2 * 1000000) := Nat.mul_assoc ..
      _ ≤ 10 ^ s.decimalsIn * (s.num ^ 2 * (1000000 - s.fee)) := hworth
      _ ≤ 10 ^ s.decimalsIn * (s.num ^ 2 * 1000000) :=
          Nat.mul_le_mul_left _ (Nat.mul_le_mul_left _ (Nat.sub_le _ _))
      _ = 10 ^ s.decimalsIn * s.num ^ 2 * 1000000 := (Nat.mul_assoc ..).symm
  have hbelow : amount * s.den ^ 2 ≤ 10 ^ s.decimalsIn * s.num ^ 2 :=
    Nat.le_of_mul_le_mul_right hfee (by decide)
  apply Nat.lt_of_mul_lt_mul_right (a := s.den ^ 2)
  calc amount * 10 ^ 18 * s.den ^ 2
      = amount * s.den ^ 2 * 10 ^ 18 := Nat.mul_right_comm ..
    _ ≤ 10 ^ s.decimalsIn * s.num ^ 2 * 10 ^ 18 := Nat.mul_le_mul_right _ hbelow
    _ < 2 ^ 256 * s.den ^ 2 := hsmall

/-- **What the unit is worth has a rate of at most the price less the fee.** -/
theorem PlainUnits.atMost_normalized (h : s.PlainUnits) {amount : Nat} (hworth : s.Worth amount) :
    s.AtMost (normalized amount s.decimalsOut) :=
  calc normalized amount s.decimalsOut * (10 ^ s.decimalsOut * (s.den ^ 2 * 1000000))
      = normalized amount s.decimalsOut * 10 ^ s.decimalsOut * (s.den ^ 2 * 1000000) := by ring
    _ ≤ amount * 10 ^ 18 * (s.den ^ 2 * 1000000) :=
        Nat.mul_le_mul_right _ (normalized_mul_le (h.plain hworth))
    _ = 10 ^ 18 * (amount * (s.den ^ 2 * 1000000)) := by ring
    _ ≤ 10 ^ 18 * (10 ^ s.decimalsIn * (s.num ^ 2 * (1000000 - s.fee))) :=
        Nat.mul_le_mul_left _ hworth

/-- The spot rate is one of these. -/
theorem PlainUnits.atMost_rate (h : s.PlainUnits) : s.AtMost s.rate := by
  unfold rate
  split
  · exact h.atMost_normalized amountOut_mul_le
  · exact atMost_zero

/-- The scale less the fee is at most the exact rate where a unit buys at least a unit. -/
theorem atMost_passThrough_iff (s : SpotSale) (hfee : s.fee < 1000000) :
    s.AtMost (10 ^ 12 * (1000000 - s.fee)) ↔
      10 ^ s.decimalsOut * s.den ^ 2 ≤ 10 ^ s.decimalsIn * s.num ^ 2 := by
  have hpos : 0 < 10 ^ 18 * (1000000 - s.fee) := Nat.mul_pos (by decide) (Nat.sub_pos_of_lt hfee)
  have hleft : 10 ^ 12 * (1000000 - s.fee) * (10 ^ s.decimalsOut * (s.den ^ 2 * 1000000)) =
      10 ^ 18 * (1000000 - s.fee) * (10 ^ s.decimalsOut * s.den ^ 2) := by ring
  have hright : 10 ^ 18 * (10 ^ s.decimalsIn * (s.num ^ 2 * (1000000 - s.fee))) =
      10 ^ 18 * (1000000 - s.fee) * (10 ^ s.decimalsIn * s.num ^ 2) := by ring
  rw [AtMost, hleft, hright]
  exact Nat.mul_le_mul_left_iff hpos

end SpotSale

/-! ## The entries of the estimator -/

/-- The two steps on words, with a division of either kind. -/
theorem toNat_steps (unit num : U256) {den : Nat} {divide : U256 → U256}
    (hdivide : ∀ x, (divide x).toNat = x.toNat / den) :
    ((checkedMul unit num).bind fun step1 => (checkedMul (divide step1) num).bind fun step2 =>
        some (divide step2)).map BitVec.toNat =
      if unit.toNat * num.toNat < 2 ^ 256 ∧ unit.toNat * num.toNat / den * num.toNat < 2 ^ 256 then
        some (unit.toNat * num.toNat / den * num.toNat / den)
      else none := by
  by_cases hfirst : unit.toNat * num.toNat < 2 ^ 256
  · obtain ⟨step1, hstep1, hvalue1⟩ := exists_checkedMul hfirst
    rw [hstep1, Option.bind_some, ← hvalue1, ← hdivide]
    by_cases hsecond : (divide step1).toNat * num.toNat < 2 ^ 256
    · obtain ⟨step2, hstep2, hvalue2⟩ := exists_checkedMul hsecond
      rw [hstep2, if_pos ⟨step1.isLt, hsecond⟩, ← hvalue2, ← hdivide]
      rfl
    · rw [checkedMul_eq_none (Nat.not_lt.mp hsecond), if_neg fun h => hsecond h.2]
      rfl
  · rw [checkedMul_eq_none (Nat.not_lt.mp hfirst), if_neg fun h => hfirst h.1]
    rfl

/-- The sale of a unit of one of the tokens of a pool, at its square-root price. -/
def spotSale (decimals0 decimals1 : UInt8) (fee : UInt32) (sqrtPriceX96 : U256)
    (zeroForOne : Bool) : SpotSale :=
  if zeroForOne then ⟨decimals0.toNat, decimals1.toNat, sqrtPriceX96.toNat, 2 ^ 96, fee.toNat⟩
  else ⟨decimals1.toNat, decimals0.toNat, 2 ^ 96, sqrtPriceX96.toNat, fee.toNat⟩

/-- The tick quote of a unit, or zero. -/
def unitQuote (quote : V3Quote) (db : StateDb) (pool : Address) (decimals0 decimals1 : UInt8)
    (fee : UInt32) (tickSpacing : Int32) (zeroForOne : Bool) : Nat :=
  ((quote db pool (decimalReference (if zeroForOne then decimals0 else decimals1)) zeroForOne fee
    tickSpacing).getD 0).toNat

namespace RateEstimator

/-- The rate of a pool and direction, as a number. -/
def entry (est : RateEstimator) (pool : Address) (zeroForOne : Bool) : Option Nat :=
  (est.rates pool zeroForOne).map BitVec.toNat

variable (est : RateEstimator) (pool : Address) (db : StateDb)

theorem entry_insert (direction : Bool) (rate : U256) (zeroForOne : Bool) :
    (est.insert pool direction rate).entry pool zeroForOne =
      if zeroForOne = direction then some rate.toNat else est.entry pool zeroForOne := by
  unfold entry RateEstimator.insert
  simp only [true_and]
  split <;> rfl

theorem entry_insertQuote (direction : Bool) (outDecimals : UInt8) (quoted : Option U256)
    (zeroForOne : Bool) :
    (est.insertQuote pool direction outDecimals quoted).entry pool zeroForOne =
      if zeroForOne = direction ∧ (quoted.getD 0).toNat ≠ 0 then
        some (normalized (quoted.getD 0).toNat outDecimals.toNat)
      else est.entry pool zeroForOne := by
  cases quoted with
  | none => rw [if_neg fun h => h.2 rfl]; rfl
  | some out =>
    rw [insertQuote, Option.getD_some]
    by_cases hout : out = 0
    · subst hout
      rw [if_pos rfl, if_neg fun h => h.2 rfl]
    · have hpos : out.toNat ≠ 0 := (toNat_pos hout).ne'
      rw [if_neg hout, entry_insert, toNat_normalizedRate]
      simp only [hpos, ne_eq, not_false_eq_true, and_true]

/-- A spot rate is stored unless it is zero. -/
theorem entry_insertSpot (sale : SpotSale) {fee : UInt32} (hfee : fee.toNat < 1000000)
    (direction : Bool) (outDecimals : UInt8) {rawOut : Option U256}
    (hdecimals : sale.decimalsOut = outDecimals.toNat) (hfeeSale : sale.fee = fee.toNat)
    (hraw : rawOut.map BitVec.toNat = if sale.Fits then
      some (sale.unit * sale.num / sale.den * sale.num / sale.den) else none)
    (zeroForOne : Bool) :
    (est.insertSpot pool direction outDecimals fee rawOut).entry pool zeroForOne =
      if zeroForOne = direction ∧ sale.rate ≠ 0 then some sale.rate
      else est.entry pool zeroForOne := by
  by_cases hfits : sale.Fits
  · rw [if_pos hfits] at hraw
    obtain ⟨out, rfl, hout⟩ := Option.map_eq_some_iff.mp hraw
    have hnum : (BitVec.ofNat 256 (1000000 - min fee.toNat 999999) : U256).toNat =
        1000000 - sale.fee := by
      rw [toNat_ofNat_of_lt (by omega), hfeeSale]
      omega
    have hrate : (normalizedRate (out * BitVec.ofNat 256 (1000000 - min fee.toNat 999999) / 1000000)
        outDecimals).toNat = sale.rate := by
      rw [toNat_normalizedRate, SpotSale.rate, if_pos hfits, hdecimals, SpotSale.amountOut,
        BitVec.toNat_udiv, BitVec.toNat_mul, hnum, hout]
      rfl
    rw [insertSpot, ← hrate]
    generalize normalizedRate _ _ = rate
    by_cases hzero : rate = 0
    · subst hzero
      rw [if_pos rfl, if_neg fun h => h.2 rfl]
    · have hpos : rate.toNat ≠ 0 := (toNat_pos hzero).ne'
      rw [if_neg hzero, entry_insert]
      simp only [hpos, ne_eq, not_false_eq_true, and_true]
  · rw [if_neg hfits] at hraw
    obtain rfl := Option.map_eq_none_iff.mp hraw
    rw [SpotSale.rate, if_neg hfits, if_neg fun h => h.2 rfl]
    rfl

/-- **The spot rates**, where the price is loaded: of each direction the rate, unless it is
zero. -/
theorem entry_updateV3SpotRate {decimals0 decimals1 : UInt8} {fee : UInt32}
    {sqrtPriceX96 : U256} {tick : BitVec 32} (hfee : fee.toNat < 1000000)
    (hprice : db.readV3Slot0 pool = some (sqrtPriceX96, tick)) (hne : sqrtPriceX96 ≠ 0)
    (zeroForOne : Bool) :
    (est.updateV3SpotRate db pool decimals0 decimals1 fee).entry pool zeroForOne =
      if (spotSale decimals0 decimals1 fee sqrtPriceX96 zeroForOne).rate ≠ 0 then
        some (spotSale decimals0 decimals1 fee sqrtPriceX96 zeroForOne).rate
      else est.entry pool zeroForOne := by
  have hshift : ∀ x : U256, (x >>> 96).toNat = x.toNat / 2 ^ 96 := fun x =>
    toNat_ushiftRight_eq_div x 96
  have hdiv : ∀ x : U256, (x / sqrtPriceX96).toNat = x.toNat / sqrtPriceX96.toNat := fun x =>
    BitVec.toNat_udiv
  have hq96 : (((1 <<< 96 : Nat) : U256)).toNat = 2 ^ 96 := by decide
  rw [updateV3SpotRate, hprice]
  dsimp only
  rw [if_neg hne,
    entry_insertSpot _ pool (spotSale decimals0 decimals1 fee sqrtPriceX96 false) hfee false
      decimals0 rfl rfl ?_,
    entry_insertSpot _ pool (spotSale decimals0 decimals1 fee sqrtPriceX96 true) hfee true
      decimals1 rfl rfl ?_]
  · cases zeroForOne <;> simp
  · refine (toNat_steps _ _ hshift).trans ?_
    rw [toNat_decimalReference_eq]
    rfl
  · refine (toNat_steps _ _ hdiv).trans ?_
    rw [toNat_decimalReference_eq, hq96]
    rfl

/-- The tick quotes of both directions, each of them stored unless it is missing or zero. -/
theorem entry_updateV3Rate (quote : V3Quote) (decimals0 decimals1 : UInt8) (fee : UInt32)
    (tickSpacing : Int32) (zeroForOne : Bool) :
    (est.updateV3Rate quote db pool decimals0 decimals1 fee tickSpacing).entry pool zeroForOne =
      if unitQuote quote db pool decimals0 decimals1 fee tickSpacing zeroForOne ≠ 0 then
        some (normalized (unitQuote quote db pool decimals0 decimals1 fee tickSpacing zeroForOne)
          (if zeroForOne then decimals1 else decimals0).toNat)
      else est.entry pool zeroForOne := by
  rw [updateV3Rate, entry_insertQuote, entry_insertQuote]
  cases zeroForOne <;> simp [unitQuote]

/-- The rate of the pass-through is the scale less the fee, exactly. -/
theorem entry_updateV3PassthroughWithFee {fee : UInt32} (hfee : fee.toNat < 1000000)
    (zeroForOne : Bool) :
    (est.updateV3PassthroughWithFee pool fee).entry pool zeroForOne =
      some (10 ^ 12 * (1000000 - fee.toNat)) := by
  have hvalue : (rateScale * BitVec.ofNat 256 (1000000 - fee.toNat) / 1000000 : U256).toNat =
      10 ^ 12 * (1000000 - fee.toNat) := by
    generalize hn : 1000000 - fee.toNat = n
    have hle : n ≤ 1000000 := hn ▸ Nat.sub_le _ _
    have hfactor : (BitVec.ofNat 256 n : U256).toNat = n :=
      toNat_ofNat_of_lt (Nat.lt_of_le_of_lt hle (by decide))
    have hproduct : rateScale.toNat * (BitVec.ofNat 256 n : U256).toNat < 2 ^ 256 := by
      rw [toNat_rateScale, hfactor]
      exact Nat.lt_of_le_of_lt (Nat.mul_le_mul_left _ hle) (by decide)
    rw [BitVec.toNat_udiv, toNat_mul_of_lt hproduct, toNat_rateScale, hfactor]
    refine Nat.div_eq_of_eq_mul_right (by decide) ?_
    rw [← Nat.mul_assoc]
    rfl
  rw [updateV3PassthroughWithFee, if_pos hfee, entry_insert, entry_insert, hvalue]
  cases zeroForOne <;> simp

end RateEstimator

end ArbBot
