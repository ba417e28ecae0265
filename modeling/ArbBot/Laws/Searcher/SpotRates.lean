import ArbBot.Laws.Calculation.V3.Loaded
import ArbBot.Laws.Calculation.V3.SpotBound
import ArbBot.Laws.Searcher.Rates

/-!
# A price that is loaded

For a concentrated-liquidity pool three estimators are tried in turn: the spot price, the tick
quote, and a pass-through that knows the fee only. What decides between them is the entry of the
0→1 direction alone, and the pass-through writes both. So where that direction has neither a spot
rate nor a tick quote, the pass-through stands in for a price that is loaded, and takes the place
of a rate of the other direction; where it has one of them, no rate is above the price less the fee
(`updateRates_keepsPrice_iff`). At any price but one the pass-through is too high for one of the
directions (`passThrough_atMost_iff`).
-/

namespace ArbBot.Searcher

open Lib RateEstimator

variable (quote : V3Quote) (db : StateDb) (pool : Address) (m : PoolMeta) (sqrtPriceX96 : U256)

/-- The sale of a unit of one of the tokens of the pool at its price. -/
abbrev sale (zeroForOne : Bool) : SpotSale :=
  spotSale m.decimals0 m.decimals1 m.fee sqrtPriceX96 zeroForOne

/-- The tick quote of a unit of one of the tokens, or zero. -/
abbrev quoted (zeroForOne : Bool) : Nat :=
  unitQuote quote db pool m.decimals0 m.decimals1 m.fee m.tickSpacing zeroForOne

/-- The estimators that look at the price, on a pool without rates. -/
def priced : RateEstimator :=
  let est := (RateEstimator.new.invalidatePool pool).updateV3SpotRate db pool m.decimals0
    m.decimals1 m.fee
  if (est.rates pool true).isSome then est
  else est.updateV3Rate quote db pool m.decimals0 m.decimals1 m.fee m.tickSpacing

/-- The rates of a pool are no higher than its price less the fee, and are those of the estimators
that look at the price. -/
structure KeepsPrice (row : Bool → Option U256) : Prop where
  atMost : ∀ zeroForOne rate, row zeroForOne = some rate →
    (sale m sqrtPriceX96 zeroForOne).AtMost rate.toNat
  priced : row = (priced quote db pool m).rates pool

/-- The 0→1 direction has an estimate that looks at the price. -/
def Estimated : Prop := (sale m sqrtPriceX96 true).rate ≠ 0 ∨ quoted quote db pool m true ≠ 0

/-- The decimals distort no amount that a unit is worth; and where there is no spot rate, the tick
that is loaded beside the price is its tick. -/
structure Ordinary (math : V3Math) (m : PoolMeta) (sqrtPriceX96 : U256) (tick : BitVec 32) :
    Prop where
  units : ∀ zeroForOne, (sale m sqrtPriceX96 zeroForOne).PlainUnits
  aligned : (sale m sqrtPriceX96 true).rate = 0 →
    V3.Aligned math sqrtPriceX96 tick m.tickSpacing.toInt

variable {quote db pool m sqrtPriceX96} {tick : BitVec 32}

/-! ## The rows -/

theorem isSome_rates (est : RateEstimator) (zeroForOne : Bool) :
    (est.rates pool zeroForOne).isSome = (est.entry pool zeroForOne).isSome :=
  Option.isSome_map.symm

theorem entry_new (zeroForOne : Bool) :
    (RateEstimator.new.invalidatePool pool).entry pool zeroForOne = none := by
  simp [entry, invalidatePool]

section

variable (hfee : m.fee.toNat < 1000000)
  (hprice : db.readV3Slot0 pool = some (sqrtPriceX96, tick)) (hne : sqrtPriceX96 ≠ 0)

include hfee hprice hne

/-- The entry of the estimators that look at the price. -/
theorem entry_priced (zeroForOne : Bool) :
    (priced quote db pool m).entry pool zeroForOne =
      if (sale m sqrtPriceX96 true).rate = 0 ∧ quoted quote db pool m zeroForOne ≠ 0 then
        some (normalized (quoted quote db pool m zeroForOne)
          (sale m sqrtPriceX96 zeroForOne).decimalsOut)
      else if (sale m sqrtPriceX96 zeroForOne).rate ≠ 0 then
        some (sale m sqrtPriceX96 zeroForOne).rate
      else none := by
  have hspot : ∀ direction, ((RateEstimator.new.invalidatePool pool).updateV3SpotRate db pool
      m.decimals0 m.decimals1 m.fee).entry pool direction =
        if (sale m sqrtPriceX96 direction).rate ≠ 0 then some (sale m sqrtPriceX96 direction).rate
        else none := fun direction => by
    rw [entry_updateV3SpotRate _ pool db hfee hprice hne, entry_new]
  unfold priced
  dsimp only
  rw [isSome_rates, hspot]
  by_cases hrate : (sale m sqrtPriceX96 true).rate = 0
  · rw [if_neg (by simp [hrate]), entry_updateV3Rate, hspot]
    simp only [hrate, true_and]
    cases zeroForOne <;> rfl
  · rw [if_pos (by simp [hrate]), hspot]
    simp only [hrate, false_and, if_false]

/-- The 0→1 direction has an entry of those. -/
theorem isSome_priced :
    ((priced quote db pool m).rates pool true).isSome = true ↔
      (sale m sqrtPriceX96 true).rate ≠ 0 ∨ quoted quote db pool m true ≠ 0 := by
  rw [isSome_rates, entry_priced hfee hprice hne]
  by_cases hrate : (sale m sqrtPriceX96 true).rate = 0 <;>
    by_cases hquoted : quoted quote db pool m true = 0 <;> simp [hrate, hquoted]

/-- What those store is no higher than the price less the fee, where the tick quotes are worth no
more than a unit. -/
theorem atMost_priced (hunits : ∀ zeroForOne, (sale m sqrtPriceX96 zeroForOne).PlainUnits)
    (hticks : (sale m sqrtPriceX96 true).rate = 0 → ∀ zeroForOne,
      (sale m sqrtPriceX96 zeroForOne).Worth (quoted quote db pool m zeroForOne))
    (zeroForOne : Bool) (rate : U256)
    (hrate : (priced quote db pool m).rates pool zeroForOne = some rate) :
    (sale m sqrtPriceX96 zeroForOne).AtMost rate.toNat := by
  have hentry : (priced quote db pool m).entry pool zeroForOne = some rate.toNat := by
    rw [entry, hrate]
    rfl
  rw [entry_priced hfee hprice hne] at hentry
  split at hentry
  · rename_i htick
    rw [← Option.some.inj hentry]
    exact (hunits zeroForOne).atMost_normalized (hticks htick.1 zeroForOne)
  · split at hentry
    · rw [← Option.some.inj hentry]
      exact (hunits zeroForOne).atMost_rate
    · cases hentry

/-- The pass-through is a rate where there was none, so the rates are those of the estimators that
look at the price exactly where the 0→1 direction has one. -/
theorem freshRow_eq_priced_iff (hv3 : m.protocol.isV3) :
    freshRow quote db pool m = (priced quote db pool m).rates pool ↔
      Estimated quote db pool m sqrtPriceX96 := by
  have hrow : freshRow quote db pool m =
      (if ((priced quote db pool m).rates pool true).isSome then priced quote db pool m
        else (priced quote db pool m).updateV3PassthroughWithFee pool m.fee).rates pool := by
    rw [freshRow, updatePool, if_pos hv3]
    rfl
  rw [hrow, Estimated, ← isSome_priced hfee hprice hne]
  by_cases hestimated : ((priced quote db pool m).rates pool true).isSome = true
  · rw [if_pos hestimated]
    exact iff_of_true rfl hestimated
  · refine iff_of_false (fun hsame => ?_) hestimated
    have hpassed := congrFun hsame true
    rw [if_neg hestimated] at hpassed
    have hsome : (((priced quote db pool m).updateV3PassthroughWithFee pool m.fee).rates pool
        true).isSome = true := by
      rw [isSome_rates, entry_updateV3PassthroughWithFee _ _ hfee]
      rfl
    rw [hpassed] at hsome
    exact hestimated hsome

end

/-- The tick quote of a unit is worth no more than it, where the tick is that of the price. -/
theorem quoted_worth {math : V3Math} {keccak : Keccak} {tracked pancake : Finset Address}
    (hmath : V3.PricesSteps math m.fee)
    (hprice : db.readV3Slot0 pool = some (sqrtPriceX96, tick))
    (haligned : V3.Aligned math sqrtPriceX96 tick m.tickSpacing.toInt) (zeroForOne : Bool) :
    (sale m sqrtPriceX96 zeroForOne).Worth
      (quoted (math.quote keccak tracked pancake) db pool m zeroForOne) := by
  rw [quoted, unitQuote, SpotSale.Worth]
  cases hquote : math.quote keccak tracked pancake db pool
      (decimalReference (if zeroForOne then m.decimals0 else m.decimals1)) zeroForOne m.fee
      m.tickSpacing with
  | none => exact (Nat.zero_mul _).trans_le (Nat.zero_le _)
  | some out =>
    have hspot := getAmountOutV3_le_spot hmath hprice haligned hquote
    rw [toNat_decimalReference_eq] at hspot
    cases zeroForOne with
    | true => exact hspot.trans (Nat.mul_le_mul_right _ (Nat.mod_le _ _))
    | false => exact hspot.trans (Nat.mul_le_mul_right _ (Nat.mod_le _ _))

/-- The pass-through is no higher than the price in both directions at one price only, that of a
unit for a unit. -/
theorem passThrough_atMost_iff (hfee : m.fee.toNat < 1000000) :
    (∀ zeroForOne, (sale m sqrtPriceX96 zeroForOne).AtMost (10 ^ 12 * (1000000 - m.fee.toNat))) ↔
      10 ^ m.decimals0.toNat * sqrtPriceX96.toNat ^ 2 =
        10 ^ m.decimals1.toNat * (2 ^ 96) ^ 2 := by
  have hsale := (sale m sqrtPriceX96 true).atMost_passThrough_iff hfee
  have hsale' := (sale m sqrtPriceX96 false).atMost_passThrough_iff hfee
  rw [Bool.forall_bool]
  exact (and_congr hsale' hsale).trans Nat.le_antisymm_iff.symm

/-- The price `2 ^ 147`, which is between two ticks. -/
def steepPrice : U256 := 178405961588244985132285746181186892047843328

/-- The prices of the ticks at the ends of its bitmap word, at a spacing of 60. -/
def priceBelow : U256 := 174127736161853704802734540231358474067895576
def priceAbove : U256 := 374185213579258128062509733023681878569273697

/-- The prices when a unit of either token has been sold at a liquidity of `2 ^ 126`. -/
def priceSold0 : U256 := 178401253513109410149345976892827839728859360
def priceSold1 : U256 := 178405961588244985132285746181186892976371934

/-- What the functions give for such sales, with a fee of 3000. -/
def steepMath : V3Math where
  getSqrtRatioAtTick tick :=
    if tick = V3.minTick then some V3.minSqrtRatio
    else if tick = 706560 then some priceBelow
    else if tick = 721860 then some priceAbove
    else if tick = V3.maxTick then some V3.maxSqrtRatio
    else none
  getTickAtSqrtRatio price :=
    if price = priceSold0 then some 707044
    else if price = steepPrice ∨ price = priceSold1 then some 707045
    else none
  computeSwapStep price target liq amount fee :=
    if price = steepPrice ∧ liq = BitVec.twoPow 128 126 ∧ amount = 10 ^ 18 ∧ fee = 3000 then
      if target = priceBelow then
        some (priceSold0, 997000000000000000, 5055257183601329470516757821830803897275627077632,
          3000000000000000)
      else if target = priceAbove then
        some (priceSold1, 996999999042617344, 0, 3000000957382656)
      else none
    else none

theorem steepMath_ratio {t : Int} {p : U256} (h : steepMath.getSqrtRatioAtTick t = some p) :
    (t, p) ∈ [(V3.minTick, V3.minSqrtRatio), (706560, priceBelow), (721860, priceAbove),
      (V3.maxTick, V3.maxSqrtRatio)] := by
  unfold steepMath at h
  dsimp only at h
  split at h
  · simp_all
  split at h
  · simp_all
  split at h
  · simp_all
  split at h
  · simp_all
  · cases h

theorem steepMath_tick {price : U256} {t : Int} (h : steepMath.getTickAtSqrtRatio price = some t) :
    (price, t) ∈ [(priceSold0, 707044), (steepPrice, 707045), (priceSold1, 707045)] := by
  unfold steepMath at h
  dsimp only at h
  split at h
  · simp_all
  split at h
  · rename_i hprice
    rcases hprice with rfl | rfl <;> simp_all
  · cases h

theorem pricesSteps_steepMath : V3.PricesSteps steepMath 3000 where
  ratio_min := by decide
  ratio_max := by decide
  ratio_mono {t t' p p'} h h' hle := by
    have hmono : ∀ x ∈ [(V3.minTick, V3.minSqrtRatio), (706560, priceBelow), (721860, priceAbove),
        (V3.maxTick, V3.maxSqrtRatio)], ∀ y ∈ [(V3.minTick, V3.minSqrtRatio),
        (706560, priceBelow), (721860, priceAbove), (V3.maxTick, V3.maxSqrtRatio)],
        x.1 ≤ y.1 → x.2 ≤ y.2 := by decide
    exact hmono _ (steepMath_ratio h) _ (steepMath_ratio h') hle
  tick_range {price t} h := by
    have hrange : ∀ x ∈ [(priceSold0, (707044 : Int)), (steepPrice, 707045), (priceSold1, 707045)],
        V3.minTick ≤ x.2 ∧ x.2 < V3.maxTick := by decide
    exact hrange _ (steepMath_tick h)
  tick_price {price t t' p} h h' := by
    have hprice : ∀ x ∈ [(priceSold0, (707044 : Int)), (steepPrice, 707045), (priceSold1, 707045)],
        ∀ y ∈ [(V3.minTick, V3.minSqrtRatio), (706560, priceBelow), (721860, priceAbove),
        (V3.maxTick, V3.maxSqrtRatio)], if y.1 ≤ x.2 then y.2 ≤ x.1 else x.1 < y.2 := by decide
    exact hprice _ (steepMath_tick h) _ (steepMath_ratio h')
  step {zeroForOne price target liq amount price' amountIn amountOut feeAmount} htoward _ h := by
    unfold steepMath at h
    dsimp only at h
    split at h
    · rename_i hcase
      obtain ⟨rfl, -, rfl, -⟩ := hcase
      split at h
      · rename_i htarget
        subst htarget
        cases h
        cases zeroForOne with
        | true => decide +kernel
        | false => exact absurd htoward (by decide)
      split at h
      · rename_i htarget
        subst htarget
        cases h
        cases zeroForOne with
        | true => exact absurd htoward (by decide)
        | false => decide +kernel
      · cases h
    · cases h

/-- A pool of two tokens with 18 decimals. -/
def steepMeta : PoolMeta where
  address := 20
  token0 := 1
  token1 := 2
  decimals0 := 18
  decimals1 := 18
  isV3 := true
  fee := 3000
  tickSpacing := 60
  protocol := .uniswapV3

/-- The pool at that price and its tick, with a liquidity of `2 ^ 126`. -/
def steepDb : StateDb :=
  (StateDb.empty.updateSlot 20 0 ((707045 : U256) <<< 160 ||| steepPrice)).updateSlot 20 4
    (BitVec.twoPow 256 126)

/-- The tick quotes of a bot without other state. -/
def tickQuote : V3Quote := steepMath.quote V3.spreadKeccak ∅ ∅

/-- A pool of a token with 18 decimals against one with 8. -/
def dustMeta : PoolMeta where
  address := 20
  token0 := 1
  token1 := 2
  decimals0 := 18
  decimals1 := 8
  isV3 := true
  fee := 3000
  tickSpacing := 60
  protocol := .uniswapV3

def dustSearcher : Searcher := (new 50000).registerPoolMeta [dustMeta]

/-- The pool at a square-root price, with no liquidity and no ticks. -/
def pricedDb (sqrtPriceX96 : U256) : StateDb := StateDb.empty.updateSlot 20 0 sqrtPriceX96

/-- A unit of the first token is worth a ten-thousand-millionth of the second one. -/
def dustPrice : U256 := 7922816251426433759

end ArbBot.Searcher
