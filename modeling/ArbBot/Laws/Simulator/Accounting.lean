import ArbBot.Simulator
import Mathlib.Algebra.Group.Int.Defs

/-!
# The accounting of a simulated path

What the optimiser picks is a quote of the quoter, and an accepted profit is the exact one of that
quote: the output less the input, the flash-loan fee and the gas, converted as the price pool says.
Two products of the accounting are not checked, the input times the fee and the profit times the
reserve of a constant-product price pool. The accounting is exact as long as these two fit.
-/

namespace ArbBot

open Lib

namespace Quoter

variable {quote : U256 → Option U256}

/-- The best amount has its quote as output, unless nothing was found. -/
def Quoted (quote : U256 → Option U256) (best : Best) : Prop :=
  best.output = 0 ∨ quote best.input = some best.output

theorem Quoted.improve {best : Best} (h : Quoted quote best) (amount : U256) :
    Quoted quote (best.improve amount ((quote amount).getD 0)) := by
  unfold Best.improve
  split
  · rename_i hbetter
    refine .inr ?_
    cases hquote : quote amount with
    | some out => rfl
    | none =>
      -- without a quote the profit is zero, which improves nothing
      rw [hquote] at hbetter
      have hzero : profitOf amount 0 = 0 := if_neg BitVec.not_lt_zero
      rw [Option.getD_none, hzero] at hbetter
      exact absurd hbetter BitVec.not_lt_zero
  · exact h

theorem probing_quoted {minInput maxInput : U256} (n : Nat) {s : Probing}
    (h : Quoted quote s.best) : Quoted quote (probing quote minInput maxInput n s).best := by
  induction n generalizing s with
  | zero => exact h
  | succ n ih =>
    unfold probing
    split
    · dsimp only
      split
      · exact h.improve s.probe
      · split
        · exact h.improve s.probe
        · apply ih
          exact h.improve s.probe
    · exact h

theorem refine_quoted (n : Nat) {lo hi : U256} {best : Best} (h : Quoted quote best) :
    Quoted quote (refine quote n lo hi best) := by
  induction n generalizing lo hi best with
  | zero => exact h
  | succ n ih =>
    unfold refine
    split
    · exact h
    · dsimp only
      split
      · exact ih ((h.improve _).improve _)
      · exact ih ((h.improve _).improve _)

/-- What gains is quoted. -/
theorem quote_optimizeInputWithDb {minInput maxInput input output : U256} {steps : Nat}
    (h : optimizeInputWithDb quote minInput maxInput steps = (input, output))
    (hgain : input < output) : quote input = some output := by
  have hpos : output ≠ 0 := by
    rintro rfl
    exact absurd hgain BitVec.not_lt_zero
  unfold optimizeInputWithDb at h
  dsimp only at h
  split at h
  · cases h
    exact absurd rfl hpos
  · cases h
    apply (refine_quoted _ (probing_quoted _ ?_)).resolve_left hpos
    exact .inl rfl

end Quoter

namespace Simulator

variable {w : Worker} {r : Revm} {others : StateDb → StateDb} {db : StateDb} {arb : ArbPath}
  {v : ValidPath}

/-- What the optimiser picks for a path. -/
def picked (w : Worker) (r : Revm) : U256 × U256 :=
  Quoter.optimizeInputWithDb r.quote w.config.minInput w.config.maxInput w.config.optimizationSteps

/-- An accepted path, step by step. -/
theorem simulateAndOptimize_eq_some (h : simulateAndOptimize w r others db arb = some v) :
    picked w r = (v.amountIn, v.amountOut) ∧ v.amountIn < v.amountOut ∧
      flashFee w.config v.amountIn < v.amountOut - v.amountIn ∧
      ∃ native, profitNative w (lookupDb r others db) (startTokenOf w arb)
          (v.amountOut - v.amountIn - flashFee w.config v.amountIn) = some native ∧
        v.gasCost < native ∧ v.netProfit = native - v.gasCost ∧
        w.config.minProfitWei ≤ v.netProfit := by
  unfold simulateAndOptimize at h
  simp only [Option.bind_eq_bind, Option.bind_eq_some_iff] at h
  obtain ⟨probeOutput, -, h⟩ := h
  split at h
  · cases h
  · split at h
    · cases h
    · rename_i hgain
      split at h
      · rename_i hfee
        simp only [Option.bind_eq_some_iff] at h
        obtain ⟨native, hnative, gas, -, h⟩ := h
        split at h
        · cases h
        · rename_i hgas
          split at h
          · cases h
          · rename_i hmin
            cases h
            exact ⟨rfl, BitVec.not_le.mp hgain, hfee, native, hnative, BitVec.not_le.mp hgas, rfl,
              BitVec.not_lt.mp hmin⟩
      · cases h

/-! ## Conversions in unbounded integers -/

/-- The conversion of a profit in unbounded integers. -/
def Pricing.exact : Pricing → Int → Int
  | .raw, profit => profit
  | .v2 rToken rNative, profit => profit * rNative.toNat / rToken.toNat
  | .v3 sqrtPriceX96 true, profit =>
    profit * sqrtPriceX96.toNat / 2 ^ 96 * sqrtPriceX96.toNat / 2 ^ 96
  | .v3 sqrtPriceX96 false, profit =>
    profit * 2 ^ 96 / sqrtPriceX96.toNat * 2 ^ 96 / sqrtPriceX96.toNat

/-- The unchecked product of the conversion fits. -/
def Pricing.Fits : Pricing → Nat → Prop
  | .v2 _ rNative, profit => profit * rNative.toNat < 2 ^ 256
  | _, _ => True

theorem toNat_shiftRight_96 (x : U256) : (x >>> 96).toNat = x.toNat / 2 ^ 96 := by
  exact toNat_ushiftRight_eq_div _ 96

theorem toNat_q96 : q96.toNat = 2 ^ 96 := by decide

theorem v3SpotPriceConvert_exact {profit sqrtPriceX96 native : U256} {startIsToken0 : Bool}
    (h : v3SpotPriceConvert profit sqrtPriceX96 startIsToken0 = some native) :
    (native.toNat : Int) = (Pricing.v3 sqrtPriceX96 startIsToken0).exact profit.toNat := by
  unfold v3SpotPriceConvert at h
  split at h
  · rename_i hzero
    cases h
    rcases hzero with rfl | rfl <;> cases startIsToken0 <;> simp [Pricing.exact]
  · cases startIsToken0 with
    | true =>
      simp only [if_true, Option.bind_eq_bind, Option.bind_eq_some_iff] at h
      obtain ⟨first, hfirst, second, hsecond, h⟩ := h
      obtain rfl := Option.some.inj h
      rw [checkedMul_eq_some] at hfirst hsecond
      rw [toNat_shiftRight_96, hsecond, toNat_shiftRight_96, hfirst]
      simp [Pricing.exact]
    | false =>
      simp only [Bool.false_eq_true, if_false, Option.bind_eq_bind, Option.bind_eq_some_iff] at h
      obtain ⟨first, hfirst, second, hsecond, h⟩ := h
      obtain rfl := Option.some.inj h
      rw [checkedMul_eq_some, toNat_q96] at hfirst hsecond
      rw [BitVec.toNat_udiv, hsecond, BitVec.toNat_udiv, hfirst]
      simp [Pricing.exact]

theorem convert_exact {pricing : Pricing} {profit native : U256}
    (h : pricing.convert profit = some native) (hfits : pricing.Fits profit.toNat) :
    (native.toNat : Int) = pricing.exact profit.toNat := by
  cases pricing with
  | raw =>
    cases h
    rfl
  | v2 rToken rNative =>
    simp only [Pricing.convert] at h
    split at h
    · cases h
    · cases h
      have hmul : (profit * rNative).toNat = profit.toNat * rNative.toNat := by
        exact toNat_mul_of_lt hfits
      rw [BitVec.toNat_udiv, hmul]
      simp [Pricing.exact]
  | v3 sqrtPriceX96 startIsToken0 => exact v3SpotPriceConvert_exact h

/-! ## Accepted paths -/

theorem toNat_flashFee {c : Config} {amountIn : U256}
    (hfits : amountIn.toNat * c.flashLoanFeeBps.toNat < 2 ^ 256) :
    (flashFee c amountIn).toNat = amountIn.toNat * c.flashLoanFeeBps.toNat / 10000 := by
  have hbps : (BitVec.ofNat 256 c.flashLoanFeeBps.toNat).toNat = c.flashLoanFeeBps.toNat := by
    have hlt := c.flashLoanFeeBps.toNat_lt
    rw [BitVec.toNat_ofNat]
    omega
  unfold flashFee
  split
  · rw [BitVec.toNat_udiv, BitVec.toNat_mul, hbps, Nat.mod_eq_of_lt hfits]
    rfl
  · rename_i hzero
    have hfee : c.flashLoanFeeBps.toNat = 0 := by
      rw [UInt64.lt_iff_toNat_lt] at hzero
      exact Nat.eq_zero_of_not_pos hzero
    rw [hfee]
    simp

/-- The accounting of an accepted path is exact. -/
structure Accounted (w : Worker) (r : Revm) (lookup : StateDb) (arb : ArbPath) (v : ValidPath) :
    Prop where
  quoted : r.quote v.amountIn = some v.amountOut
  gains : v.amountIn < v.amountOut
  enough : w.config.minProfitWei ≤ v.netProfit
  exact : (v.netProfit.toNat + v.gasCost.toNat : Int) =
    (pricing w lookup (startTokenOf w arb)).exact
      (v.amountOut.toNat - v.amountIn.toNat -
        (v.amountIn.toNat * w.config.flashLoanFeeBps.toNat / 10000 : Nat))
  loanFits : v.amountIn.toNat * w.config.flashLoanFeeBps.toNat < 2 ^ 256
  conversionFits : (pricing w lookup (startTokenOf w arb)).Fits
    (v.amountOut - v.amountIn - flashFee w.config v.amountIn).toNat

/-- The two unchecked products fit, for the amount the optimiser picks and its quote. -/
def ProductsFit (w : Worker) (r : Revm) (lookup : StateDb) (arb : ArbPath) : Prop :=
  let amountIn := (picked w r).1.toNat
  let amountOut := (picked w r).2.toNat
  let loan := amountIn * w.config.flashLoanFeeBps.toNat
  loan < 2 ^ 256 ∧
    (pricing w lookup (startTokenOf w arb)).Fits (amountOut - amountIn - loan / 10000)

/-- **An accepted path is accounted for exactly if and only if the two products fit.** -/
theorem accounted_iff (h : simulateAndOptimize w r others db arb = some v) :
    Accounted w r (lookupDb r others db) arb v ↔
      ProductsFit w r (lookupDb r others db) arb := by
  obtain ⟨hpicked, hgain, hfee, native, hnative, hgas, hnet, hmin⟩ :=
    simulateAndOptimize_eq_some h
  have hquoted := Quoter.quote_optimizeInputWithDb hpicked hgain
  unfold ProductsFit
  rw [hpicked]
  dsimp only
  -- the profit after the fee, once the fee is exact
  have hprofit (hloan : v.amountIn.toNat * w.config.flashLoanFeeBps.toNat < 2 ^ 256) :
      v.amountIn.toNat * w.config.flashLoanFeeBps.toNat / 10000 <
          v.amountOut.toNat - v.amountIn.toNat ∧
        (v.amountOut - v.amountIn - flashFee w.config v.amountIn).toNat =
          v.amountOut.toNat - v.amountIn.toNat -
            v.amountIn.toNat * w.config.flashLoanFeeBps.toNat / 10000 := by
    have hgross : (v.amountOut - v.amountIn).toNat = v.amountOut.toNat - v.amountIn.toNat :=
      BitVec.toNat_sub_of_le (BitVec.le_of_lt hgain)
    have hlt := BitVec.lt_def.mp hfee
    rw [hgross, toNat_flashFee hloan] at hlt
    refine ⟨hlt, ?_⟩
    rw [BitVec.toNat_sub_of_le (BitVec.le_of_lt hfee), hgross, toNat_flashFee hloan]
  constructor
  · intro hacc
    refine ⟨hacc.loanFits, ?_⟩
    rw [← (hprofit hacc.loanFits).2]
    exact hacc.conversionFits
  · rintro ⟨hloan, hconversion⟩
    obtain ⟨hpays, hprofit⟩ := hprofit hloan
    rw [← hprofit] at hconversion
    refine ⟨hquoted, hgain, hmin, ?_, hloan, hconversion⟩
    have hexact := convert_exact hnative hconversion
    have hlt := BitVec.lt_def.mp hgain
    have hsplit : (v.netProfit.toNat : Int) + v.gasCost.toNat = native.toNat := by
      have hle := BitVec.lt_def.mp hgas
      rw [hnet, BitVec.toNat_sub_of_le (BitVec.le_of_lt hgas)]
      omega
    have hcast : ((v.amountOut.toNat - v.amountIn.toNat -
        v.amountIn.toNat * w.config.flashLoanFeeBps.toNat / 10000 : Nat) : Int) =
          v.amountOut.toNat - v.amountIn.toNat -
            (v.amountIn.toNat * w.config.flashLoanFeeBps.toNat / 10000 : Nat) := by
      omega
    rw [hsplit, hexact, hprofit, hcast]

/-! ### A wrapped conversion -/

/-- Token 1 is the native one; token 2 is priced by pool 9. -/
def sampleWorker : Worker where
  config := ⟨1, 2, 1, 1, 5⟩
  gasStation := ⟨0, 0, 0, 6, 50, 0, 0⟩
  nativeToken := 1
  tokenPricePools token := if token = 2 then some 9 else none

/-- Every quote is the same amount. -/
def constantQuote (out : U256) : Revm where
  quote _ := some out
  accesses := []
  fetch _ _ := 0

/-- Pool 9 with reserves 2^60 of token 1 and 1 of token 2. -/
def pricedDb : StateDb := StateDb.empty.updateSlot 9 8 (BitVec.ofNat 256 (2 ^ 60 + 2 ^ 112))

/-- A path from token 2 and back. -/
def pricedArb : ArbPath := ⟨⟨[⟨10, 2, 1, .uniswapV2, 30⟩, ⟨11, 1, 2, .uniswapV2, 30⟩], 5⟩, 0, 0, 0⟩

/-- What a fake pool quotes for 1. -/
def fakeQuote : U256 := BitVec.ofNat 256 (2 ^ 200 + 2)

/-- The product of the conversion is 2^260 + 2^60. It wraps, and a profit of 2^60 is accepted. -/
theorem wrapped_conversion :
    ∃ v, simulateAndOptimize sampleWorker (constantQuote fakeQuote) id pricedDb pricedArb =
        some v ∧ v.netProfit = BitVec.ofNat 256 (2 ^ 60) ∧
      ¬ Accounted sampleWorker (constantQuote fakeQuote)
        (lookupDb (constantQuote fakeQuote) id pricedDb) pricedArb v := by
  refine ⟨⟨pricedArb, 1, fakeQuote, 0, BitVec.ofNat 256 (2 ^ 60)⟩, rfl, rfl, fun h => ?_⟩
  have hpricing : pricing sampleWorker (lookupDb (constantQuote fakeQuote) id pricedDb)
      (startTokenOf sampleWorker pricedArb) = .v2 1 (BitVec.ofNat 256 (2 ^ 60)) := rfl
  have hexact := h.exact
  rw [hpricing] at hexact
  exact absurd hexact (by decide)

/-- What an honest pool quotes for 1. -/
theorem accounted_iff_small :
    ∃ v, simulateAndOptimize sampleWorker (constantQuote 1000) id pricedDb pricedArb = some v ∧
      Accounted sampleWorker (constantQuote 1000) (lookupDb (constantQuote 1000) id pricedDb)
        pricedArb v := by
  have hfit : ProductsFit sampleWorker (constantQuote 1000)
      (lookupDb (constantQuote 1000) id pricedDb) pricedArb := by
    refine ⟨by decide, ?_⟩
    show (1000 - 1 - 1 * 5 / 10000) * (BitVec.ofNat 256 (2 ^ 60)).toNat < 2 ^ 256
    decide
  exact ⟨_, rfl, (accounted_iff rfl).mpr hfit⟩

end Simulator

end ArbBot
