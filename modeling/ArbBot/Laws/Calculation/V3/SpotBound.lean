import ArbBot.Laws.Calculation.SpotRate
import ArbBot.Laws.Calculation.V3.NextTick
import ArbBot.Laws.Calculation.V3.Steps
import Mathlib.Tactic.Linarith

/-!
# A quote and the price it starts from

Each step of the walk moves the price against the sale and pays at most what it costs, at the price
it starts from and less the fee. So a quote is at most the amount at the price of the pool, less the
fee, whatever ticks are on the way; but only if the tick that is loaded is the tick of the price.
-/

namespace ArbBot

namespace V3

open Lib

/-- The price has moved against the sale. -/
def Toward (zeroForOne : Bool) (price price' : U256) : Prop :=
  if zeroForOne then price' ≤ price else price ≤ price'

instance (zeroForOne : Bool) (price price' : U256) : Decidable (Toward zeroForOne price price') :=
  inferInstanceAs (Decidable (if zeroForOne then price' ≤ price else price ≤ price'))

/-- The square root of the price of what is sold is `num / den`. -/
def num (zeroForOne : Bool) (price : U256) : Nat := if zeroForOne then price.toNat else 2 ^ 96
def den (zeroForOne : Bool) (price : U256) : Nat := if zeroForOne then 2 ^ 96 else price.toNat

/-- What is known of the functions of `uniswap_v3_math` at a fee below one million: the prices of
ticks increase, from the one of the first tick to the one of the last, and the tick of a price is
the last one whose price is not above it. A step toward a target does not pass it and costs at most
the amount that is left; it pays at most the cost, less the fee, at the price it starts from. -/
structure PricesSteps (math : V3Math) (fee : UInt32) : Prop where
  ratio_min : math.getSqrtRatioAtTick minTick = some minSqrtRatio
  ratio_max : math.getSqrtRatioAtTick maxTick = some maxSqrtRatio
  ratio_mono : ∀ {t t' p p'}, math.getSqrtRatioAtTick t = some p →
    math.getSqrtRatioAtTick t' = some p' → t ≤ t' → p ≤ p'
  tick_range : ∀ {price t}, math.getTickAtSqrtRatio price = some t → minTick ≤ t ∧ t < maxTick
  tick_price : ∀ {price t t' p}, math.getTickAtSqrtRatio price = some t →
    math.getSqrtRatioAtTick t' = some p → if t' ≤ t then p ≤ price else price < p
  step : ∀ {zeroForOne price target liq amount price' amountIn amountOut feeAmount},
    Toward zeroForOne price target → 0 < amount →
    math.computeSwapStep price target liq amount fee =
        some (price', amountIn, amountOut, feeAmount) →
      Toward zeroForOne price price' ∧ Toward zeroForOne price' target ∧
      (amountIn.toNat + feeAmount.toNat : Nat) ≤ amount ∧
      amountOut.toNat * (den zeroForOne price ^ 2 * 1000000) ≤
        (amountIn.toNat + feeAmount.toNat) *
          (num zeroForOne price ^ 2 * (1000000 - fee.toNat))

variable {math : V3Math} {keccak : Keccak} {db : BlockStateDb} {pool : Address}
  {zeroForOne : Bool} {fee : UInt32} {tickSpacing : Int} {w w' : Walk} {price price' target : U256}

/-! ## Prices -/

theorem Toward.trans (h : Toward zeroForOne price price') (h' : Toward zeroForOne price' target) :
    Toward zeroForOne price target := by
  cases zeroForOne with
  | true => exact BitVec.le_trans h' h
  | false => exact BitVec.le_trans h h'

theorem Toward.num_le (h : Toward zeroForOne price price') :
    num zeroForOne price' ≤ num zeroForOne price := by
  cases zeroForOne with
  | true => exact h
  | false => exact Nat.le_refl _

theorem Toward.den_le (h : Toward zeroForOne price price') :
    den zeroForOne price ≤ den zeroForOne price' := by
  cases zeroForOne with
  | true => exact Nat.le_refl _
  | false => exact h

/-- The target is ahead of a price if the next tick and the limit are. -/
theorem Toward.targetOf (hnext : Toward zeroForOne price price')
    (hlimit : Toward zeroForOne price (sqrtPriceLimit zeroForOne)) :
    Toward zeroForOne price (targetOf zeroForOne price') := by
  unfold V3.targetOf
  cases zeroForOne with
  | true =>
    rw [if_pos rfl]
    split
    · exact hlimit
    · exact hnext
  | false =>
    rw [if_neg Bool.false_ne_true]
    split
    · exact hlimit
    · exact hnext

/-- The limit is not behind the target. -/
theorem toward_targetOf_limit (zeroForOne : Bool) (price : U256) :
    Toward zeroForOne (targetOf zeroForOne price) (sqrtPriceLimit zeroForOne) := by
  unfold targetOf Toward
  cases zeroForOne <;> simp only [if_true, Bool.false_eq_true, if_false] <;> split
  · exact BitVec.le_refl _
  · rename_i hlimit
    exact BitVec.not_lt.mp hlimit
  · exact BitVec.le_refl _
  · rename_i hlimit
    exact BitVec.not_lt.mp hlimit

/-! ## The ticks -/

/-- Every tick ahead of the walk has a price ahead of it, and the limit is ahead. -/
structure Faces (math : V3Math) (zeroForOne : Bool) (w : Walk) : Prop where
  low : minTick ≤ w.tick
  high : w.tick < maxTick
  ahead : ∀ {t p}, math.getSqrtRatioAtTick t = some p →
    (if zeroForOne then t ≤ w.tick else w.tick < t) → Toward zeroForOne w.sqrtPrice p
  limit : Toward zeroForOne w.sqrtPrice (sqrtPriceLimit zeroForOne)

/-- Whatever is loaded of the bitmap shows some ticks. -/
theorem exists_stored (keccak : Keccak) (db : BlockStateDb) (pool : Address)
    (hpos : 0 < tickSpacing) : ∃ initialized, Stored keccak db pool tickSpacing initialized := by
  refine ⟨fun t =>
    ((db.readV3TickBitmap keccak pool (BitVec.ofInt 16 (t / tickSpacing / 256))).getD 0).getLsbD
      (t / tickSpacing % 256).toNat, fun word bit hbit => ?_⟩
  have hrest : (tickOf tickSpacing word.toInt bit / tickSpacing % 256).toNat = bit := by
    rw [tickOf, Int.mul_ediv_cancel _ hpos.ne']
    omega
  simp only [tickOf_div hpos hbit, hrest, BitVec.ofInt_toInt]

/-- The search finds a tick ahead. -/
theorem ahead_findNext (hpos : 0 < tickSpacing) (hspacing : tickSpacing < 2 ^ 23)
    {tick next : Int} {initialized : Bool} (hlow : minTick ≤ tick) (hhigh : tick < maxTick)
    (hfind : findNextInitializedTick keccak db pool tick tickSpacing zeroForOne =
      some (next, initialized)) :
    if zeroForOne then max minTick (min next maxTick) ≤ tick
    else tick < max minTick (min next maxTick) := by
  obtain ⟨ticks, hstored⟩ := exists_stored keccak db pool hpos
  rw [findNextInitializedTick_eq_nextIn hpos hspacing (by omega) hhigh.le hstored,
    Option.some.injEq] at hfind
  have hside := (isNext_nextIn hpos ticks zeroForOne tick).side
  rw [hfind] at hside
  cases zeroForOne with
  | true =>
    rw [if_pos rfl] at hside ⊢
    omega
  | false =>
    rw [if_neg Bool.false_ne_true] at hside ⊢
    omega

/-! ## A run of the walk -/

/-- What has been paid is at most what it cost, at the price of the start less the fee. -/
structure Worth (fee : UInt32) (zeroForOne : Bool) (amountIn : Nat) (price : U256) (w : Walk) :
    Prop where
  remaining : 0 ≤ w.amountRemaining
  moved : Toward zeroForOne price w.sqrtPrice
  paid : (w.amountCalculated.toNat : Int) * (den zeroForOne price ^ 2 * 1000000 : Nat) ≤
    (amountIn - w.amountRemaining) * (num zeroForOne price ^ 2 * (1000000 - fee.toNat) : Nat)

section

variable (hmath : PricesSteps math fee)
include hmath

/-- The first and the last tick are beyond the limits. -/
theorem inner_of_limit {h : Hop} (hnext : h.nextTick = max minTick (min h.nextTick maxTick))
    (hratio : math.getSqrtRatioAtTick h.nextTick = some h.sqrtPriceNext)
    (hlimit : Toward zeroForOne h.sqrtPriceNext (sqrtPriceLimit zeroForOne)) :
    if zeroForOne then minTick < h.nextTick else h.nextTick < maxTick := by
  have hrange : minTick ≤ maxTick := by decide
  cases zeroForOne with
  | true =>
    rw [if_pos rfl]
    refine lt_of_le_of_ne (by omega) fun hfirst => ?_
    rw [← hfirst, hmath.ratio_min, Option.some.injEq] at hratio
    rw [← hratio] at hlimit
    exact absurd hlimit (by decide)
  | false =>
    rw [if_neg Bool.false_ne_true]
    refine lt_of_le_of_ne (by omega) fun hlast => ?_
    rw [hlast, hmath.ratio_max, Option.some.injEq] at hratio
    rw [← hratio] at hlimit
    exact absurd hlimit (by decide)

/-- Where a step lands, the ticks ahead are ahead of the new price. -/
theorem Faces.land {h : Hop} (hfaces : Faces math zeroForOne w)
    (hnext : h.nextTick = max minTick (min h.nextTick maxTick))
    (hratio : math.getSqrtRatioAtTick h.nextTick = some h.sqrtPriceNext)
    (hprice : w'.sqrtPrice = h.newSqrtPrice)
    (hlimit : Toward zeroForOne h.newSqrtPrice (sqrtPriceLimit zeroForOne))
    (hland : V3.land math keccak db pool zeroForOne w h = some (w'.liq, w'.tick)) :
    Faces math zeroForOne w' := by
  unfold V3.land at hland
  by_cases hreached : h.newSqrtPrice = h.sqrtPriceNext
  · rw [if_pos hreached] at hland
    obtain ⟨liq, -, hlanded⟩ := Option.map_eq_some_iff.mp hland
    have htick : w'.tick = if zeroForOne then h.nextTick - 1 else h.nextTick :=
      (Prod.mk.inj hlanded).2.symm
    have hinner := inner_of_limit hmath hnext hratio (hreached ▸ hlimit)
    refine ⟨?_, ?_, fun {t p} ht hside => ?_, hprice ▸ hlimit⟩
    · rw [htick]
      cases zeroForOne <;> simp only [if_true, Bool.false_eq_true, if_false] at hinner ⊢ <;> omega
    · rw [htick]
      cases zeroForOne <;> simp only [if_true, Bool.false_eq_true, if_false] at hinner ⊢ <;> omega
    · rw [htick] at hside
      rw [hprice, hreached]
      cases zeroForOne with
      | true => exact hmath.ratio_mono ht hratio (by simp only [if_true] at hside; omega)
      | false =>
        refine hmath.ratio_mono hratio ht ?_
        simp only [Bool.false_eq_true, if_false] at hside
        exact hside.le
  · rw [if_neg hreached] at hland
    obtain ⟨tick, hlanded, hpair⟩ := Option.map_eq_some_iff.mp hland
    have htick : tick = w'.tick := (Prod.mk.inj hpair).2
    rw [htick] at hlanded
    obtain ⟨hlow, hhigh⟩ := hmath.tick_range hlanded
    refine ⟨hlow, hhigh, fun {t p} ht hside => ?_, hprice ▸ hlimit⟩
    have hside' := hmath.tick_price hlanded ht
    rw [hprice]
    cases zeroForOne with
    | true =>
      have hle : t ≤ w'.tick := hside
      rw [if_pos hle] at hside'
      exact hside'
    | false =>
      have hlt : w'.tick < t := hside
      rw [if_neg (Int.not_le.mpr hlt)] at hside'
      exact BitVec.le_of_lt hside'

/-- **A step pays no more than its cost is worth**, and goes on ahead. -/
theorem Worth.step {amountIn : Nat} (hpos : 0 < tickSpacing) (hspacing : tickSpacing < 2 ^ 23)
    (hworth : Worth fee zeroForOne amountIn price w) (hfaces : Faces math zeroForOne w)
    (hleft : w.amountRemaining ≠ 0)
    (hstep : walkStep math keccak db pool zeroForOne fee tickSpacing w = some w') :
    Worth fee zeroForOne amountIn price w' ∧ Faces math zeroForOne w' := by
  obtain ⟨h, hhop, haccount, hland, hprice⟩ := walkStep_eq_some.mp hstep
  obtain ⟨next, hfind, hclamp, hratio, hcompute⟩ := hop_eq_some.mp hhop
  obtain ⟨hremaining, hcalculated⟩ := of_account haccount
  have hahead := ahead_findNext hpos hspacing hfaces.low hfaces.high hfind
  rw [← hclamp] at hahead
  have htarget := Toward.targetOf (hfaces.ahead hratio hahead) hfaces.limit
  have hpositive : 0 < w.amountRemaining := lt_of_le_of_ne hworth.remaining (Ne.symm hleft)
  obtain ⟨hmoved, hshort, hcost, hpaid⟩ := hmath.step htarget hpositive hcompute
  refine ⟨⟨?_, ?_, ?_⟩, ?_⟩
  · omega
  · exact hprice ▸ hworth.moved.trans hmoved
  · -- the price of the step is no better than the one of the start
    have hnum := Nat.pow_le_pow_left hworth.moved.num_le 2
    have hden := Nat.pow_le_pow_left hworth.moved.den_le 2
    have hstart : h.amountOutStep.toNat * (den zeroForOne price ^ 2 * 1000000) ≤
        (h.amountInStep.toNat + h.feeAmount.toNat) *
          (num zeroForOne price ^ 2 * (1000000 - fee.toNat)) :=
      calc h.amountOutStep.toNat * (den zeroForOne price ^ 2 * 1000000)
          ≤ h.amountOutStep.toNat * (den zeroForOne w.sqrtPrice ^ 2 * 1000000) :=
            Nat.mul_le_mul_left _ (Nat.mul_le_mul_right _ hden)
        _ ≤ _ := hpaid
        _ ≤ _ := Nat.mul_le_mul_left _ (Nat.mul_le_mul_right _ hnum)
    have hbefore := hworth.paid
    rw [hremaining, hcalculated]
    generalize num zeroForOne price ^ 2 * (1000000 - fee.toNat) = gain at hstart hbefore ⊢
    generalize den zeroForOne price ^ 2 * 1000000 = scale at hstart hbefore ⊢
    have hcharged : (h.amountOutStep.toNat * scale : Int) ≤
        (h.amountInStep.toNat + h.feeAmount.toNat) * gain := by
      exact_mod_cast hstart
    push_cast at hbefore ⊢
    linarith
  · refine hfaces.land hmath ?_ hratio hprice (hshort.trans (toward_targetOf_limit _ _)) hland
    rw [hclamp]
    omega

/-- **And so does the whole walk.** -/
theorem Worth.walk {amountIn : Nat} (hpos : 0 < tickSpacing) (hspacing : tickSpacing < 2 ^ 23)
    {n : Nat} (hworth : Worth fee zeroForOne amountIn price w)
    (hfaces : Faces math zeroForOne w)
    (hwalk : V3.walk math keccak db pool zeroForOne fee tickSpacing n w = some w') :
    Worth fee zeroForOne amountIn price w' := by
  induction n generalizing w with
  | zero => exact Option.some.inj hwalk ▸ hworth
  | succ n ih =>
    rw [walk_succ] at hwalk
    split at hwalk
    · rename_i hgoes
      obtain ⟨w₁, hstep, hrest⟩ := Option.bind_eq_some_iff.mp hwalk
      obtain ⟨hworth₁, hfaces₁⟩ := hworth.step hmath hpos hspacing hfaces hgoes.1 hstep
      exact ih hworth₁ hfaces₁ hrest
    · exact Option.some.inj hwalk ▸ hworth

end

/-! ## The quote -/

/-- The tick that is loaded beside a price is its tick, within the limits of both directions, and
the spacing is that of a pool. -/
structure Aligned (math : V3Math) (price : U256) (tick : BitVec 32) (tickSpacing : Int) :
    Prop where
  tick : math.getTickAtSqrtRatio price = some tick.toInt
  low : minSqrtRatio < price
  high : price < maxSqrtRatio
  spacing_pos : 0 < tickSpacing
  spacing_lt : tickSpacing < 2 ^ 23

theorem Aligned.faces (hmath : PricesSteps math fee) {tick : BitVec 32}
    (haligned : Aligned math price tick tickSpacing) (hprice : w.sqrtPrice = price)
    (htick : w.tick = tick.toInt) (zeroForOne : Bool) : Faces math zeroForOne w := by
  obtain ⟨hlow, hhigh⟩ := hmath.tick_range haligned.tick
  refine ⟨htick ▸ hlow, htick ▸ hhigh, fun {t p} ht hside => ?_, ?_⟩
  · have hprices := hmath.tick_price haligned.tick ht
    rw [htick] at hside
    rw [hprice]
    cases zeroForOne with
    | true =>
      have hle : t ≤ tick.toInt := hside
      rw [if_pos hle] at hprices
      exact hprices
    | false =>
      have hlt : tick.toInt < t := hside
      rw [if_neg (Int.not_le.mpr hlt)] at hprices
      exact BitVec.le_of_lt hprices
  · rw [hprice]
    have hmin : minSqrtRatio.toNat = 4295128739 := by decide
    have hmax : maxSqrtRatio.toNat = 1461446703485210103287273052203988822378723970342 := by decide
    have hlower : minSqrtRatio.toNat < price.toNat := haligned.low
    have hupper : price.toNat < maxSqrtRatio.toNat := haligned.high
    cases zeroForOne with
    | true =>
      change (minSqrtRatio + 1).toNat ≤ price.toNat
      have hlimit : (minSqrtRatio + 1).toNat = 4295128740 := by decide
      omega
    | false =>
      change price.toNat ≤ (maxSqrtRatio - 1).toNat
      have hlimit : (maxSqrtRatio - 1).toNat =
          1461446703485210103287273052203988822378723970341 := by decide
      omega

end V3

open Lib V3 in
/-- **A quote is at most the amount at the price that is loaded, less the fee.** -/
theorem getAmountOutV3_le_spot {math : V3Math} {keccak : Keccak} {db : BlockStateDb}
    {pool : Address} {amountIn out sqrtPriceX96 : U256} {tick : BitVec 32} {zeroForOne : Bool}
    {fee : UInt32} {tickSpacing : Int32} (hmath : PricesSteps math fee)
    (hslot0 : db.readV3Slot0 pool = some (sqrtPriceX96, tick))
    (haligned : Aligned math sqrtPriceX96 tick tickSpacing.toInt)
    (hquote : getAmountOutV3 math keccak db pool amountIn zeroForOne fee tickSpacing = some out) :
    out.toNat * (den zeroForOne sqrtPriceX96 ^ 2 * 1000000) ≤
      amountIn.toNat * (num zeroForOne sqrtPriceX96 ^ 2 * (1000000 - fee.toNat)) := by
  unfold getAmountOutV3 at hquote
  split at hquote
  · rw [← Option.some.inj hquote]
    exact (Nat.zero_mul _).trans_le (Nat.zero_le _)
  · simp only [Option.bind_eq_bind, Option.bind_eq_some_iff, Option.some.injEq] at hquote
    obtain ⟨start, hstart, w, hwalk, rfl⟩ := hquote
    have hbegin : start.sqrtPrice = sqrtPriceX96 ∧ start.tick = tick.toInt ∧
        start.amountRemaining = amountIn.toNat ∧ start.amountCalculated = 0 := by
      simp only [startWalk, hslot0, Option.bind_eq_bind, Option.bind_some] at hstart
      split at hstart
      · cases hstart
      · simp only [Option.bind_eq_some_iff, tryI256, checkedInt_eq_some,
          Option.some.injEq] at hstart
        obtain ⟨liquidity, -, remaining, ⟨rfl, -⟩, rfl⟩ := hstart
        exact ⟨rfl, rfl, rfl, rfl⟩
    obtain ⟨hprice, htick, hremaining, hcalculated⟩ := hbegin
    have hworth : Worth fee zeroForOne amountIn.toNat sqrtPriceX96 start := by
      refine ⟨hremaining ▸ Int.natCast_nonneg _, ?_, ?_⟩
      · rw [hprice]
        cases zeroForOne <;> exact BitVec.le_refl _
      · rw [hremaining, hcalculated]
        simp
    have hend := hworth.walk hmath haligned.spacing_pos haligned.spacing_lt
      (haligned.faces hmath hprice htick zeroForOne) hwalk
    have hcost : (amountIn.toNat - w.amountRemaining) *
        (num zeroForOne sqrtPriceX96 ^ 2 * (1000000 - fee.toNat) : Nat) ≤
          (amountIn.toNat : Int) *
            (num zeroForOne sqrtPriceX96 ^ 2 * (1000000 - fee.toNat) : Nat) :=
      Int.mul_le_mul_of_nonneg_right (Int.sub_le_self _ hend.remaining) (Int.natCast_nonneg _)
    exact_mod_cast hend.paid.trans hcost

end ArbBot
