import ArbBot.Laws.Calculation.V3.Bitmap
import ArbBot.Laws.Calculation.V3.Loaded

/-!
# A quote and the swap on chain

The walk follows the swap loop of the pool, state by state, as long as there is liquidity and for
500 steps. It stops at a tick without liquidity, which the loop on chain passes. So a quote is what
the swap pays exactly if the swap pays nothing from there on.
-/

namespace ArbBot

namespace V3

open Lib Uniswap

variable {math : V3Math} {keccak : Keccak} {db : BlockStateDb} {address : Address} {pool : Pool}
  {zeroForOne : Bool} {fee : UInt32} {w w' : Walk} {s : Swap} {sqrtPrice : U256} {tick : Int}

/-- The tick of the price limit. -/
def limitTick (zeroForOne : Bool) : Int := if zeroForOne then minTick else maxTick - 1

/-- A walk is where the loop is. Once the loop is done the ticks may differ, but at the price limit
the walk is at its tick. -/
structure Sim (zeroForOne : Bool) (w : Walk) (s : Swap) : Prop where
  sqrtPrice : w.sqrtPrice = s.sqrtPrice
  liq : w.liq = BitVec.ofInt 128 s.liquidity
  remaining : w.amountRemaining = s.remaining
  paid : w.amountCalculated.toNat = s.paid
  tick : ¬ s.Done zeroForOne → w.tick = s.tick
  atLimit : s.sqrtPrice = sqrtPriceLimit zeroForOne →
    s.remaining = 0 ∨ w.tick = limitTick zeroForOne

/-- Where the loop has liquidity, so has the walk. -/
theorem Sim.liq_pos (hsim : Sim zeroForOne w s) (htracks : Tracks pool s)
    (hne : s.liquidity ≠ 0) : 0 < w.liq := by
  obtain ⟨hlow, hhigh⟩ := pool.liquidityAt_range s.tick
  rw [← htracks.liquidity] at hlow hhigh
  have hvalue : w.liq.toNat = s.liquidity.toNat := by
    rw [hsim.liq, BitVec.toNat_ofInt]
    congr 1
    exact Int.emod_eq_of_lt hlow hhigh
  rw [BitVec.lt_def, hvalue]
  change 0 < s.liquidity.toNat
  omega

theorem tick_of_limit (hmath : IsUniswapMath math fee) (zeroForOne : Bool) :
    math.getTickAtSqrtRatio (sqrtPriceLimit zeroForOne) = some (limitTick zeroForOne) := by
  cases zeroForOne with
  | true => exact hmath.tick_low
  | false => exact hmath.tick_high

/-- The price limit is not the price of a tick. -/
theorem ratio_ne_limit (hmath : IsUniswapMath math fee) {t : Int} (hlow : minTick ≤ t)
    (hhigh : t ≤ maxTick) : math.getSqrtRatioAtTick t ≠ some (sqrtPriceLimit zeroForOne) := by
  intro hratio
  have hnotMax : t ≠ maxTick := fun h => by
    rw [h, hmath.ratio_max] at hratio
    cases zeroForOne <;> exact absurd (Option.some.inj hratio) (by decide)
  have htick := hmath.tick_ratio hlow (lt_of_le_of_ne hhigh hnotMax) hratio
  rw [tick_of_limit hmath] at htick
  rw [← Option.some.inj htick] at hratio
  cases zeroForOne with
  | true => exact absurd (Option.some.inj (hmath.ratio_min.symm.trans hratio)) (by decide)
  | false => exact hmath.ratio_last hratio

theorem crossTick_ofInt {liquidity net : Int} {liq : BitVec 128}
    (h : crossTick zeroForOne (BitVec.ofInt 128 liquidity) (BitVec.ofInt 128 net) = some liq) :
    liq = BitVec.ofInt 128 (if zeroForOne then liquidity - net else liquidity + net) := by
  obtain ⟨sum, hsum, rfl⟩ := Option.map_eq_some_iff.1 h
  obtain ⟨rfl, -⟩ := checkedInt_eq_some.1 hsum
  cases zeroForOne with
  | true =>
    simp only [if_true, Int.sub_eq_add_neg, BitVec.ofInt_add, BitVec.ofInt_neg,
      BitVec.ofInt_toInt]
  | false =>
    simp only [Bool.false_eq_true, if_false, BitVec.ofInt_add, BitVec.ofInt_toInt]

/-- The liquidity after a step of the walk that reaches its tick is that of the pool there. -/
theorem reachTick_eq (hloaded : Loaded keccak db address pool sqrtPrice tick)
    (htracks : Tracks pool s) (hliq : w.liq = BitVec.ofInt 128 s.liquidity)
    {h : Hop} {next : Int} (hnext : pool.nextTick zeroForOne s.tick = (next, h.initialized))
    (hclamp : h.nextTick = clamp next) {liq : BitVec 128}
    (hreach : reachTick keccak db address zeroForOne w h = some liq) :
    liq = BitVec.ofInt 128 (pool.liquidityAt (past zeroForOne next)) := by
  rw [liquidityAt_past htracks hnext]
  unfold reachTick at hreach
  by_cases hinitialized : h.initialized = true
  · rw [if_pos hinitialized] at hreach ⊢
    rw [hinitialized] at hnext
    have hmem : next ∈ pool.ticks := by
      cases zeroForOne with
      | true => exact (Pool.nextTick_down hnext).2.1 rfl
      | false => exact (Pool.nextTick_up hnext).2.1 rfl
    obtain ⟨gross, hentry⟩ := hloaded.entry next hmem
    rw [hclamp, clamp_of_mem hmem, hentry, Option.bind_some, hliq] at hreach
    rw [crossTick_ofInt hreach, delta, clamp_of_mem hmem]
    cases zeroForOne <;> rfl
  · rw [if_neg hinitialized] at hreach ⊢
    rw [← Option.some.inj hreach, hliq]

section

variable (hmath : IsUniswapMath math fee) (hloaded : Loaded keccak db address pool sqrtPrice tick)
include hmath hloaded

/-- **A step of the walk is a step of the loop.** -/
theorem Sim.step (hsim : Sim zeroForOne w s) (hinv : Inv pool zeroForOne s)
    (hdone : ¬ s.Done zeroForOne)
    (hstep : walkStep math keccak db address zeroForOne fee pool.spacing w = some w') :
    ∃ t, s.step math pool zeroForOne fee = some t ∧ Sim zeroForOne w' t := by
  have htracks := hinv.2.resolve_left hdone
  have hpositive : 0 < s.remaining := lt_of_le_of_ne hinv.1 fun h => hdone (.inl h.symm)
  obtain ⟨h, hhop, haccount, hland, hprice⟩ := walkStep_eq_some.1 hstep
  obtain ⟨next, hfind, hclamp, hratio, hcompute⟩ := hop_eq_some.1 hhop
  rw [hsim.tick hdone, findNextInitializedTick_eq hloaded htracks.low htracks.high] at hfind
  have hnext := Option.some.inj hfind
  change h.nextTick = clamp next at hclamp
  rw [hclamp] at hratio
  rw [hsim.sqrtPrice, hsim.liq, hsim.remaining] at hcompute
  obtain ⟨hremaining, hcalculated⟩ := of_account haccount
  rw [hsim.remaining] at hremaining
  rw [hsim.paid] at hcalculated
  unfold land at hland
  by_cases hreached : h.newSqrtPrice = h.sqrtPriceNext
  · rw [if_pos hreached] at hland
    obtain ⟨liq, hreach, hlanded⟩ := Option.map_eq_some_iff.1 hland
    rw [Prod.mk.injEq] at hlanded
    obtain ⟨hliq, htick⟩ := hlanded
    have hpast : w'.tick = past zeroForOne next := by
      rw [← htick, hclamp]
      rfl
    refine ⟨⟨h.newSqrtPrice, past zeroForOne next, pool.liquidityAt (past zeroForOne next),
      w'.amountRemaining, w'.amountCalculated.toNat⟩, ?_, ?_⟩
    · refine step_eq_some.2 ⟨next, h.initialized, hnext, h.sqrtPriceNext, hratio, h.amountInStep,
        h.amountOutStep, h.feeAmount, hcompute, ?_, hremaining, hcalculated⟩
      dsimp only
      rw [hreached]
      exact land_of_reached htracks hnext _
    · refine ⟨hprice, ?_, rfl, rfl, fun _ => hpast, fun hlimit => ?_⟩
      · rw [← hliq]
        exact reachTick_eq hloaded htracks hsim.liq hnext hclamp hreach
      · obtain ⟨hlow, hhigh⟩ := clamp_range next
        rw [← hreached] at hratio
        exact absurd (hratio.trans (congrArg some hlimit)) (ratio_ne_limit hmath hlow hhigh)
  · rw [if_neg hreached] at hland
    obtain ⟨newTick, hnewTick, hlanded⟩ := Option.map_eq_some_iff.1 hland
    rw [Prod.mk.injEq] at hlanded
    obtain ⟨hliq, htick⟩ := hlanded
    refine ⟨⟨h.newSqrtPrice, if h.newSqrtPrice ≠ s.sqrtPrice then newTick else s.tick,
      s.liquidity, w'.amountRemaining, w'.amountCalculated.toNat⟩, ?_, ?_⟩
    · refine step_eq_some.2 ⟨next, h.initialized, hnext, h.sqrtPriceNext, hratio, h.amountInStep,
        h.amountOutStep, h.feeAmount, hcompute, ?_, hremaining, hcalculated⟩
      dsimp only
      rw [Swap.land, if_neg hreached, hnewTick]
      split <;> rfl
    · refine ⟨hprice, hliq.symm.trans hsim.liq, rfl, rfl, fun hnot => ?_, fun hlimit => .inr ?_⟩
      · exact absurd (done_of_not_reached hmath hpositive hcompute hremaining hreached) hnot
      · have hsame := tick_of_limit hmath zeroForOne
        rw [← show h.newSqrtPrice = sqrtPriceLimit zeroForOne from hlimit, hnewTick] at hsame
        exact htick.symm.trans (Option.some.inj hsame)

/-- At the price limit a step of the walk changes nothing but the iteration. -/
theorem walkStep_atLimit (hprice : w.sqrtPrice = sqrtPriceLimit zeroForOne)
    (htick : w.tick = limitTick zeroForOne) (hpositive : 0 < w.amountRemaining)
    (hstep : walkStep math keccak db address zeroForOne fee pool.spacing w = some w') :
    w'.sqrtPrice = sqrtPriceLimit zeroForOne ∧ w'.tick = limitTick zeroForOne ∧
      0 ≤ w'.amountRemaining ∧ w'.amountCalculated = w.amountCalculated := by
  obtain ⟨h, hhop, haccount, hland, hnew⟩ := walkStep_eq_some.1 hstep
  obtain ⟨next, hfind, hclamp, hratio, hcompute⟩ := hop_eq_some.1 hhop
  have hrange : minTick - 1 ≤ limitTick zeroForOne ∧ limitTick zeroForOne ≤ maxTick := by
    cases zeroForOne <;> decide
  rw [htick, findNextInitializedTick_eq hloaded hrange.1 hrange.2] at hfind
  have hnext := Option.some.inj hfind
  -- the next price is beyond the limit
  have hbeyond : targetOf zeroForOne h.sqrtPriceNext = sqrtPriceLimit zeroForOne ∧
      sqrtPriceLimit zeroForOne ≠ h.sqrtPriceNext := by
    cases zeroForOne with
    | true =>
      have hle := (Pool.nextTick_down hnext).1
      have hlast : h.nextTick = minTick := by
        rw [hclamp]
        exact max_eq_left ((min_le_left _ _).trans hle)
      rw [hlast, hmath.ratio_min] at hratio
      rw [← Option.some.inj hratio]
      decide
    | false =>
      have hlt := (Pool.nextTick_up hnext).1
      have hlast : h.nextTick = maxTick := by
        rw [hclamp, min_eq_right (Int.le_of_sub_one_lt hlt)]
        decide
      rw [hlast, hmath.ratio_max] at hratio
      rw [← Option.some.inj hratio]
      decide
  rw [hprice, hbeyond.1] at hcompute
  obtain ⟨hstays, hnothing⟩ := hmath.step_still hpositive hcompute
  have hcost := (hmath.step_cost hpositive hcompute).1
  obtain ⟨hremaining, hcalculated⟩ := of_account haccount
  rw [land, hstays, if_neg hbeyond.2, tick_of_limit hmath] at hland
  have hlanded := Option.some.inj hland
  rw [Prod.mk.injEq] at hlanded
  refine ⟨hnew.trans hstays, hlanded.2.symm, by omega, BitVec.eq_of_toNat_eq ?_⟩
  rw [hcalculated, hnothing]
  rfl

theorem walk_atLimit {n : Nat} (hprice : w.sqrtPrice = sqrtPriceLimit zeroForOne)
    (htick : w.tick = limitTick zeroForOne) (hnonneg : 0 ≤ w.amountRemaining)
    (hwalk : walk math keccak db address zeroForOne fee pool.spacing n w = some w') :
    w'.amountCalculated = w.amountCalculated := by
  induction n generalizing w with
  | zero =>
    cases hwalk
    rfl
  | succ n ih =>
    rw [walk_succ] at hwalk
    split at hwalk
    · rename_i hgoes
      obtain ⟨next, hstep, hwalk⟩ := Option.bind_eq_some_iff.1 hwalk
      have hpositive : 0 < w.amountRemaining := lt_of_le_of_ne hnonneg (Ne.symm hgoes.1)
      obtain ⟨hprice', htick', hnonneg', hcalculated⟩ :=
        walkStep_atLimit hmath hloaded hprice htick hpositive hstep
      exact (ih hprice' htick' hnonneg' hwalk).trans hcalculated
    · cases hwalk
      rfl

/-- **The walk pays what the loop has paid** when it is done, at a tick without liquidity, or has
made as many steps. -/
theorem walk_eq_advance {n : Nat} (hsim : Sim zeroForOne w s) (hinv : Inv pool zeroForOne s)
    (hwalk : walk math keccak db address zeroForOne fee pool.spacing n w = some w') :
    ∃ t, advance math pool zeroForOne fee n s = some t ∧ w'.amountCalculated.toNat = t.paid := by
  induction n generalizing w s with
  | zero =>
    cases hwalk
    exact ⟨s, rfl, hsim.paid⟩
  | succ n ih =>
    rw [walk_succ] at hwalk
    unfold advance
    by_cases hstops : s.Done zeroForOne ∨ s.liquidity = 0
    · rw [if_pos hstops]
      refine ⟨s, rfl, ?_⟩
      rw [← hsim.paid]
      congr 1
      split at hwalk
      · rename_i hgoes
        rcases hstops with (hspent | hlimit) | hdry
        · exact absurd (hsim.remaining.trans hspent) hgoes.1
        · have htick := (hsim.atLimit hlimit).resolve_left fun h =>
            hgoes.1 (hsim.remaining.trans h)
          refine walk_atLimit hmath hloaded (hsim.sqrtPrice.trans hlimit) htick ?_
            (n := n + 1) (walk_succ n ▸ (if_pos hgoes).trans hwalk)
          exact hsim.remaining ▸ hinv.1
        · have hliq := hgoes.2
          rw [hsim.liq, hdry] at hliq
          exact absurd hliq (by decide)
      · cases hwalk
        rfl
    · rw [if_neg hstops]
      have hdone : ¬ s.Done zeroForOne := fun h => hstops (.inl h)
      have hgoes : w.amountRemaining ≠ 0 ∧ 0 < w.liq :=
        ⟨fun h => hdone (.inl (hsim.remaining.symm.trans h)),
          hsim.liq_pos (hinv.2.resolve_left hdone) fun h => hstops (.inr h)⟩
      rw [if_pos hgoes] at hwalk
      obtain ⟨w₁, hstep, hwalk⟩ := Option.bind_eq_some_iff.1 hwalk
      obtain ⟨s₁, hstep', hsim'⟩ := hsim.step hmath hloaded hinv hdone hstep
      obtain ⟨t, hadvance, hpaid⟩ := ih hsim' (hinv.goes hmath ⟨hdone, hstep'⟩) hwalk
      exact ⟨t, Option.bind_eq_some_iff.2 ⟨s₁, hstep', hadvance⟩, hpaid⟩

end

/-- The tick of a pool agrees with its price: it is the tick of the price, or the one below it after
the price has come down to that of a tick. -/
def Agrees (math : V3Math) (sqrtPrice : U256) (tick : Int) : Prop :=
  minTick ≤ tick ∧ tick < maxTick ∧
    (math.getTickAtSqrtRatio sqrtPrice = some tick ∨
      math.getSqrtRatioAtTick (tick + 1) = some sqrtPrice)

/-- The start of a walk over a loaded pool is the start of the swap. -/
theorem sim_start (zeroForOne : Bool) (hmath : IsUniswapMath math fee)
    (hloaded : Loaded keccak db address pool sqrtPrice tick) (hagrees : Agrees math sqrtPrice tick)
    {amountIn : U256} (hstart : startWalk db address amountIn = some w) :
    Sim zeroForOne w (start pool sqrtPrice tick amountIn) := by
  obtain ⟨hlow, hhigh, hagrees⟩ := hagrees
  unfold startWalk at hstart
  obtain ⟨slot0, hslot0, hstart⟩ := Option.bind_eq_some_iff.1 hstart
  rw [hloaded.slot0] at hslot0
  obtain rfl := Option.some.inj hslot0
  have hpositive : sqrtPrice ≠ 0 := fun hzero => nomatch (if_pos hzero).symm.trans hstart
  have hstart := (if_neg hpositive).symm.trans hstart
  obtain ⟨liquidity, hliquidity, hstart⟩ := Option.bind_eq_some_iff.1 hstart
  rw [hloaded.liquidity] at hliquidity
  obtain rfl := Option.some.inj hliquidity
  obtain ⟨remaining, hremaining, hw⟩ := Option.bind_eq_some_iff.1 hstart
  obtain ⟨rfl, -⟩ := checkedInt_eq_some.1 hremaining
  have htick : (BitVec.ofInt 32 tick).toInt = tick := by
    unfold minTick at hlow
    unfold maxTick at hhigh
    rw [BitVec.toInt_ofInt]
    exact Int.bmod_eq_of_le (by omega) (by omega)
  rw [← Option.some.inj hw]
  refine ⟨rfl, rfl, rfl, rfl, fun _ => htick, fun hlimit => .inr (htick.trans ?_)⟩
  change sqrtPrice = sqrtPriceLimit zeroForOne at hlimit
  rw [hlimit] at hagrees
  rcases hagrees with hsame | habove
  · exact (Option.some.inj ((tick_of_limit hmath zeroForOne).symm.trans hsame)).symm
  · exact absurd habove (ratio_ne_limit hmath (by omega) (by omega))

end V3

open V3 Uniswap

/-- **A quote is what the swap pays on chain exactly if the swap pays nothing after the first time
it is at a tick without liquidity, or after 500 steps.** The pool is any one whose state is loaded,
with a tick that agrees with its price. -/
theorem getAmountOutV3_onChain_iff {math : V3Math} {keccak : Keccak} {db : BlockStateDb}
    {address : Address} {pool : Pool} {sqrtPrice amountIn out : U256} {tick : Int}
    {zeroForOne : Bool} {fee : UInt32} {tickSpacing : Int32}
    (hmath : ∀ fee : UInt32, fee.toNat < 1000000 → IsUniswapMath math fee)
    (hfee : fee.toNat < 1000000) (hloaded : Loaded keccak db address pool sqrtPrice tick)
    (hagrees : Agrees math sqrtPrice tick) (hspacing : tickSpacing.toInt = pool.spacing)
    (hquote : getAmountOutV3 math keccak db address amountIn zeroForOne fee tickSpacing =
      some out) :
    Pays math pool zeroForOne fee (start pool sqrtPrice tick amountIn) out.toNat ↔
      ∀ stop, advance math pool zeroForOne fee maxTickIterations
        (start pool sqrtPrice tick amountIn) = some stop →
          Pays math pool zeroForOne fee stop stop.paid := by
  obtain ⟨stop, hadvance, hpaid⟩ : ∃ stop, advance math pool zeroForOne fee maxTickIterations
      (start pool sqrtPrice tick amountIn) = some stop ∧ out.toNat = stop.paid := by
    unfold getAmountOutV3 at hquote
    split at hquote
    · rename_i hzero
      have hdone : (start pool sqrtPrice tick amountIn).Done zeroForOne := .inl (by rw [hzero]; rfl)
      refine ⟨_, if_pos (.inl hdone), ?_⟩
      rw [← Option.some.inj hquote]
      rfl
    · obtain ⟨w, hstart, hquote⟩ := Option.bind_eq_some_iff.1 hquote
      obtain ⟨last, hwalk, hquote⟩ := Option.bind_eq_some_iff.1 hquote
      rw [hspacing] at hwalk
      have hsim := sim_start zeroForOne (hmath fee hfee) hloaded hagrees hstart
      have hinv : Inv pool zeroForOne (start pool sqrtPrice tick amountIn) :=
        ⟨Int.natCast_nonneg _, .inr ⟨Int.le_trans (by decide) hagrees.1, hagrees.2.1.le, rfl⟩⟩
      obtain ⟨stop, hadvance, hpaid⟩ := walk_eq_advance (hmath fee hfee) hloaded hsim hinv hwalk
      exact ⟨stop, hadvance, Option.some.inj hquote ▸ hpaid⟩
  rw [pays_iff_of_advance hadvance, hpaid]
  constructor
  · intro hpays stop' hstop
    cases hadvance.symm.trans hstop
    exact hpays
  · exact fun h => h stop hadvance

namespace V3

open Lib

/-! ### A range without liquidity -/

/-- The price of tick 2. -/
def priceTwo : U256 := 79236085330515764027303304732

/-- The price when 10 have been sold at a liquidity of 1000000 above tick 1. -/
def priceFew : U256 := 79232836876822427497325341463

/-- What the functions give at the ticks and prices of a sale of 10, with a fee of 3000, through a
range without liquidity from tick 0 to tick 1. -/
def gapMath : V3Math where
  getSqrtRatioAtTick tick :=
    if tick = minTick then some minSqrtRatio
    else if tick = maxTick then some maxSqrtRatio
    else if tick = 1 then some priceOne
    else if tick = 2 then some priceTwo
    else none
  getTickAtSqrtRatio price :=
    if price = minSqrtRatio ∨ price = minSqrtRatio + 1 then some minTick
    else if price = maxSqrtRatio - 1 then some (maxTick - 1)
    else if price = priceZero then some 0
    else if price = priceOne ∨ price = priceFew then some 1
    else if price = priceTwo then some 2
    else none
  computeSwapStep price target liq amount fee :=
    if amount = 10 ∧ fee = 3000 then
      if price = priceZero ∧ target = priceOne ∧ liq = 0 then some (priceOne, 0, 0, 0)
      else if price = priceOne ∧ target = priceTwo ∧ liq = 1000000 then some (priceFew, 9, 8, 1)
      else none
    else none

theorem isUniswapMath_gapMath (fee : UInt32) : IsUniswapMath gapMath fee where
  ratio_min := by decide
  ratio_max := by decide
  ratio_last := by decide
  tick_ratio {tick ratio} hlow hhigh h := by
    unfold gapMath at h
    dsimp only at h
    split at h
    · rename_i htick
      rw [htick, ← Option.some.inj h]
      decide
    split at h
    · rename_i htick
      exact absurd htick hhigh.ne
    split at h
    · rename_i htick
      rw [htick, ← Option.some.inj h]
      decide
    split at h
    · rename_i htick
      rw [htick, ← Option.some.inj h]
      decide
    · cases h
  tick_low := by decide
  tick_high := by decide
  step_cost {price target liq amount price' amountIn amountOut feeAmount} _ h := by
    unfold gapMath at h
    dsimp only at h
    split at h
    · rename_i hcase
      obtain ⟨rfl, -⟩ := hcase
      split at h
      · rename_i hstep
        obtain ⟨-, rfl, -⟩ := hstep
        cases h
        exact ⟨by decide, fun hne => absurd rfl hne⟩
      split at h
      · cases h
        exact ⟨by decide, fun _ => by decide⟩
      · cases h
    · cases h
  step_still {price liq amount price' amountIn amountOut feeAmount} _ h := by
    unfold gapMath at h
    dsimp only at h
    split at h
    · split at h
      · rename_i hstep
        exact absurd (hstep.1.symm.trans hstep.2.1) (by decide)
      split at h
      · rename_i hstep
        exact absurd (hstep.1.symm.trans hstep.2.1) (by decide)
      · cases h
    · cases h

/-- A pool whose only liquidity is between ticks 1 and 2. -/
def gapPool : Pool where
  spacing := 1
  ticks := {1, 2}
  net tick := if tick = 1 then 1000000 else if tick = 2 then -1000000 else 0
  spacing_pos := by decide
  spacing_lt := by decide
  spacing_dvd tick _ := Int.one_dvd tick
  ticks_range := by decide
  net_range := by decide
  sum_range tick := by
    rw [Finset.sum_filter, Finset.sum_pair (by decide)]
    split <;> split <;> omega

/-- The slots of the pool: slot 0, the liquidity, bitmap word 0, and the two ticks. -/
def gapSlot (slot0 liquidity key : U256) : U256 :=
  if key = 0 then slot0
  else if key = 4 then liquidity
  else if key = 1006 then 6
  else if key = 1013 then (1000000 : U256) <<< 128 ||| 1000000
  else if key = 1021 then (0 - 1000000 : U256) <<< 128 ||| 1000000
  else 0

/-- Pool 9, with every slot loaded. -/
def gapDb (slot0 liquidity : U256) : BlockStateDb where
  accounts address := if address = 9 then some fun key => some (gapSlot slot0 liquidity key) else none
  trackedPools := ∅
  pancakeV3Pools := ∅

/-- Where the hash puts the entry of a mapping. -/
theorem spreadKeccak_eq (v : BitVec 32) (base : U256) :
    spreadKeccak (i256Bytes v ++ Bytes.ofWord base) =
      BitVec.ofNat 256 (1000 + 8 * v.toNat + base.toNat) := by
  have hlength : (i256Bytes v).length = 32 := by
    rw [i256Bytes, List.length_append, List.length_replicate, Bytes.length_digits]
  have hindex : ((i256Bytes v ++ Bytes.ofWord base).drop 28).take 4 = Bytes.digits 4 v.toNat := by
    rw [i256Bytes, List.append_assoc, List.drop_left' (by simp), List.take_left' (by simp)]
  have hbase : (i256Bytes v ++ Bytes.ofWord base).drop 32 = Bytes.ofWord base :=
    List.drop_left' hlength
  rw [spreadKeccak, hindex, hbase, Bytes.toNat_ofWord,
    Bytes.toNat_digits (lt_of_lt_of_eq v.isLt (by decide))]

theorem gapSlot_eq_zero {slot0 liquidity : U256} {n : Nat} (hn : n < 2 ^ 64)
    (hne : n ≠ 0 ∧ n ≠ 4 ∧ n ≠ 1006 ∧ n ≠ 1013 ∧ n ≠ 1021) :
    gapSlot slot0 liquidity (BitVec.ofNat 256 n) = 0 := by
  have hkey : ∀ m : U256, n ≠ m.toNat → BitVec.ofNat 256 n ≠ m := fun m hne h => hne (by
    rw [← h, BitVec.toNat_ofNat]
    exact (Nat.mod_eq_of_lt (hn.trans (by decide))).symm)
  obtain ⟨h0, h4, h1006, h1013, h1021⟩ := hne
  unfold gapSlot
  rw [if_neg (hkey 0 h0), if_neg (hkey 4 h4), if_neg (hkey 1006 h1006), if_neg (hkey 1013 h1013),
    if_neg (hkey 1021 h1021)]

theorem gapDb_bitmap (slot0 liquidity : U256) (word : BitVec 16) :
    ∃ bits, (gapDb slot0 liquidity).readV3TickBitmap spreadKeccak 9 word = some bits ∧
      Shows gapPool word.toInt bits := by
  have hkey : v3TickBitmapSlotBase spreadKeccak word 6 =
      BitVec.ofNat 256 (1000 + 8 * (word.signExtend 32).toNat + 6) := spreadKeccak_eq _ 6
  refine ⟨gapSlot slot0 liquidity (v3TickBitmapSlotBase spreadKeccak word 6), rfl, ?_⟩
  rw [hkey]
  by_cases hzero : word = 0
  · subst hzero
    exact show Shows gapPool 0 6 by unfold Shows; decide +kernel
  · have hlt := (word.signExtend 32).isLt
    have hsame : (word.signExtend 32).toInt = word.toInt :=
      BitVec.toInt_signExtend_of_le (by decide)
    have hword : word.toInt ≠ 0 := fun h => hzero (BitVec.eq_of_toInt_eq (h.trans rfl))
    have hindex : (word.signExtend 32).toNat ≠ 0 := fun h => by
      have hext : word.signExtend 32 = 0 := BitVec.eq_of_toNat_eq h
      rw [hext] at hsame
      exact hword hsame.symm
    rw [gapSlot_eq_zero (by omega) (by omega)]
    intro bit hbit
    change BitVec.getLsbD 0#256 bit = _
    rw [BitVec.getLsbD_zero, eq_comm, decide_eq_false_iff_not]
    intro hmem
    have hticks : gapPool.tickOf word.toInt bit = 1 ∨ gapPool.tickOf word.toInt bit = 2 := by
      simpa [gapPool] using hmem
    have htick : gapPool.tickOf word.toInt bit = word.toInt * 256 + bit := Int.mul_one _
    omega

theorem gapSlot_tickOne (slot0 liquidity : U256) :
    gapSlot slot0 liquidity 1013 = (1000000 : U256) <<< 128 ||| 1000000 := rfl

theorem gapSlot_tickTwo (slot0 liquidity : U256) :
    gapSlot slot0 liquidity 1021 = (0 - 1000000 : U256) <<< 128 ||| 1000000 := rfl

theorem gapDb_loaded {sqrtPrice : U256} {tick : Int} {slot0 liquidity : U256}
    (hslot0 : (gapDb slot0 liquidity).readV3Slot0 9 = some (sqrtPrice, BitVec.ofInt 32 tick))
    (hliquidity : (gapDb slot0 liquidity).readV3Liquidity 9 =
      some (BitVec.ofInt 128 (gapPool.liquidityAt tick))) :
    Loaded spreadKeccak (gapDb slot0 liquidity) 9 gapPool sqrtPrice tick where
  slot0 := hslot0
  liquidity := hliquidity
  bitmap := gapDb_bitmap slot0 liquidity
  entry t ht := by
    have hticks : t = 1 ∨ t = 2 := by simpa [gapPool] using ht
    rcases hticks with rfl | rfl
    · have hkey : v3TickSlotBase spreadKeccak (BitVec.ofInt 32 1) 5 = 1013 := by decide
      exact ⟨1000000, (congrArg (fun key => some (BlockStateDb.unpackTick
        (gapSlot slot0 liquidity key))) hkey).trans (by rw [gapSlot_tickOne]; decide)⟩
    · have hkey : v3TickSlotBase spreadKeccak (BitVec.ofInt 32 2) 5 = 1021 := by decide
      exact ⟨1000000, (congrArg (fun key => some (BlockStateDb.unpackTick
        (gapSlot slot0 liquidity key))) hkey).trans (by rw [gapSlot_tickTwo]; decide)⟩

/-- A sale in the range with liquidity is quoted as it is paid. -/
theorem getAmountOutV3_onChain_iff_inRange :
    Pays gapMath gapPool false 3000 (start gapPool priceOne 1 10) 8 := by
  have hslot0 : (gapDb ((1 : U256) <<< 160 ||| priceOne) 1000000).readV3Slot0 9 =
      some (priceOne, BitVec.ofInt 32 1) := by decide
  have hquote : getAmountOutV3 gapMath spreadKeccak (gapDb ((1 : U256) <<< 160 ||| priceOne) 1000000) 9 10
      false 3000 1 = some 8 := by decide +kernel
  refine (getAmountOutV3_onChain_iff (fun fee _ => isUniswapMath_gapMath fee)
    (by decide) (gapDb_loaded hslot0 (by decide)) ⟨by decide, by decide, .inl (by decide)⟩
    (by decide : (1 : Int32).toInt = 1) hquote).2 fun stop hstop => ?_
  have hadvance : advance gapMath gapPool false 3000 maxTickIterations
      (start gapPool priceOne 1 10) = some ⟨priceFew, 1, 1000000, 0, 8⟩ := by decide +kernel
  cases hadvance.symm.trans hstop
  exact (pays_iff_of_done (.inl rfl)).2 rfl

/-- A sale from the range without liquidity is quoted as nothing. On chain the price goes up to
tick 1, and the sale is paid there. -/
theorem gap_quoted_as_nothing :
    (∀ fee : UInt32, fee.toNat < 1000000 → IsUniswapMath gapMath fee) ∧
      Loaded spreadKeccak (gapDb priceZero 0) 9 gapPool priceZero 0 ∧
      Agrees gapMath priceZero 0 ∧
      getAmountOutV3 gapMath spreadKeccak (gapDb priceZero 0) 9 10 false 3000 1 = some 0 ∧
      Pays gapMath gapPool false 3000 (start gapPool priceZero 0 10) 8 ∧
      ¬ Pays gapMath gapPool false 3000 (start gapPool priceZero 0 10) 0 := by
  have hfirst : Goes gapMath gapPool false 3000 (start gapPool priceZero 0 10)
      ⟨priceOne, 1, 1000000, 10, 0⟩ := ⟨by decide, by decide +kernel⟩
  have hsecond : Goes gapMath gapPool false 3000 ⟨priceOne, 1, 1000000, 10, 0⟩
      ⟨priceFew, 1, 1000000, 0, 8⟩ := ⟨by decide, by decide +kernel⟩
  have hpays : ∀ out, Pays gapMath gapPool false 3000 (start gapPool priceZero 0 10) out ↔
      8 = out := fun out => by
    rw [pays_iff_of_goes hfirst, pays_iff_of_goes hsecond, pays_iff_of_done (.inl rfl)]
  refine ⟨fun fee _ => isUniswapMath_gapMath fee, gapDb_loaded (by decide) (by decide),
    ⟨by decide, by decide, .inl (by decide)⟩, by decide +kernel, (hpays 8).2 rfl, fun h => ?_⟩
  exact absurd ((hpays 0).1 h) (by decide)

end V3

end ArbBot
