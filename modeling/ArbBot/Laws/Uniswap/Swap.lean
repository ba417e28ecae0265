import ArbBot.Laws.Calculation.V3.NextTick
import ArbBot.Laws.Calculation.V3.Steps
import ArbBot.Uniswap.Swap

/-!
# Laws of the swap loop

The search for the next tick leaves no initialised tick out, so the liquidity of the state is the
liquidity at its tick until the loop is done. The loop is deterministic: what it pays does not
depend on where in the run one begins to count.
-/

namespace ArbBot

namespace Uniswap

open Lib V3

namespace Pool

variable {pool : Pool} {tick next t : Int} {initialized : Bool}

/-! ## The next tick -/

/-- What the search of a pool finds. -/
theorem isNext_nextTick (pool : Pool) (zeroForOne : Bool) (tick : Int) :
    IsNext pool.spacing (fun t => decide (t ∈ pool.ticks)) zeroForOne tick
      (pool.nextTick zeroForOne tick).1 (pool.nextTick zeroForOne tick).2 :=
  isNext_nextIn pool.spacing_pos _ zeroForOne tick

theorem nextTick_mem (zeroForOne : Bool) (h : pool.nextTick zeroForOne tick = (next, initialized)) :
    initialized = true ↔ next ∈ pool.ticks := by
  have hflag := (isNext_nextTick pool zeroForOne tick).flag_eq
  rw [h] at hflag
  exact Bool.eq_iff_iff.1 hflag |>.trans decide_eq_true_iff

theorem nextTick_down (h : pool.nextTick true tick = (next, initialized)) :
    next ≤ tick ∧ (initialized = true → next ∈ pool.ticks) ∧
      ∀ t ∈ pool.ticks, t ≤ tick → t ≤ next ∧ (initialized = false → t < next) := by
  have hmem := nextTick_mem true h
  have hnext := isNext_nextTick pool true tick
  rw [h] at hnext
  refine ⟨hnext.side, hmem.1, fun t ht htick => ?_⟩
  have hle : t ≤ next := by
    by_contra hlt
    have hclear := hnext.between t (pool.spacing_dvd t ht) ⟨Int.not_le.1 hlt, htick⟩
    exact of_decide_eq_false hclear ht
  refine ⟨hle, fun hflag => lt_of_le_of_ne hle ?_⟩
  rintro rfl
  exact absurd (hmem.2 ht) (by rw [hflag]; exact Bool.false_ne_true)

theorem nextTick_up (h : pool.nextTick false tick = (next, initialized)) :
    tick < next ∧ (initialized = true → next ∈ pool.ticks) ∧
      ∀ t ∈ pool.ticks, tick < t → next ≤ t ∧ (initialized = false → next < t) := by
  have hmem := nextTick_mem false h
  have hnext := isNext_nextTick pool false tick
  rw [h] at hnext
  refine ⟨hnext.side, hmem.1, fun t ht htick => ?_⟩
  have hle : next ≤ t := by
    by_contra hlt
    have hclear := hnext.between t (pool.spacing_dvd t ht) ⟨htick, Int.not_le.1 hlt⟩
    exact of_decide_eq_false hclear ht
  refine ⟨hle, fun hflag => lt_of_le_of_ne hle ?_⟩
  rintro rfl
  exact absurd (hmem.2 ht) (by rw [hflag]; exact Bool.false_ne_true)

/-! ## The liquidity -/

/-- The liquidity does not change where there is no tick. -/
theorem liquidityAt_eq (hle : t ≤ tick) (hnone : ∀ u ∈ pool.ticks, u ≤ tick → u ≤ t) :
    pool.liquidityAt t = pool.liquidityAt tick := by
  unfold liquidityAt
  congr 1
  apply Finset.filter_congr
  intro u hu
  exact ⟨fun h => h.trans hle, hnone u hu⟩

/-- At an initialised tick it changes by the net liquidity. -/
theorem liquidityAt_of_mem (ht : t ∈ pool.ticks) :
    pool.liquidityAt t = pool.liquidityAt (t - 1) + pool.net t := by
  unfold liquidityAt
  have hinsert : pool.ticks.filter (· ≤ t) = insert t (pool.ticks.filter (· ≤ t - 1)) := by
    ext u
    simp only [Finset.mem_filter, Finset.mem_insert]
    constructor
    · rintro ⟨hu, hle⟩
      by_cases hsame : u = t
      · exact .inl hsame
      · exact .inr ⟨hu, by omega⟩
    · rintro (rfl | ⟨hu, hle⟩)
      · exact ⟨ht, le_rfl⟩
      · exact ⟨hu, by omega⟩
  have hfresh : t ∉ pool.ticks.filter (· ≤ t - 1) := fun hmem => by
    have hle := (Finset.mem_filter.1 hmem).2
    omega
  rw [hinsert, Finset.sum_insert hfresh, add_comm]

theorem liquidityAt_range (pool : Pool) (tick : Int) :
    0 ≤ pool.liquidityAt tick ∧ pool.liquidityAt tick < 2 ^ 128 := pool.sum_range tick

end Pool

/-- What is known of the functions of `uniswap_v3_math`, which are those of Uniswap, at a fee below
one million: the prices of the first and the last tick, that the tick of the price of a tick is
that tick, and the ticks of the two price limits, neither of which is the price of a tick. A step
costs at most the amount that is left, and all of it unless it reaches the target. A step to the
price itself pays nothing. -/
structure IsUniswapMath (math : V3Math) (fee : UInt32) : Prop where
  ratio_min : math.getSqrtRatioAtTick minTick = some minSqrtRatio
  ratio_max : math.getSqrtRatioAtTick maxTick = some maxSqrtRatio
  ratio_last : math.getSqrtRatioAtTick (maxTick - 1) ≠ some (maxSqrtRatio - 1)
  tick_ratio : ∀ {tick ratio}, minTick ≤ tick → tick < maxTick →
    math.getSqrtRatioAtTick tick = some ratio → math.getTickAtSqrtRatio ratio = some tick
  tick_low : math.getTickAtSqrtRatio (minSqrtRatio + 1) = some minTick
  tick_high : math.getTickAtSqrtRatio (maxSqrtRatio - 1) = some (maxTick - 1)
  step_cost : ∀ {price target liq amount price' amountIn amountOut feeAmount}, 0 < amount →
    math.computeSwapStep price target liq amount fee =
        some (price', amountIn, amountOut, feeAmount) →
      (amountIn.toNat + feeAmount.toNat : Nat) ≤ amount ∧
        (price' ≠ target → (amountIn.toNat + feeAmount.toNat : Nat) = amount)
  step_still : ∀ {price liq amount price' amountIn amountOut feeAmount}, 0 < amount →
    math.computeSwapStep price price liq amount fee =
        some (price', amountIn, amountOut, feeAmount) →
      price' = price ∧ amountOut = 0

variable {math : V3Math} {pool : Pool} {zeroForOne : Bool} {fee : UInt32} {s t : Swap} {out : Nat}

/-! ## The invariant -/

/-- The liquidity of the state is that of the pool at its tick. -/
structure Tracks (pool : Pool) (s : Swap) : Prop where
  low : minTick - 1 ≤ s.tick
  high : s.tick ≤ maxTick
  liquidity : s.liquidity = pool.liquidityAt s.tick

/-- The tick where a step lands that reaches it. -/
def clamp (next : Int) : Int := max minTick (min next maxTick)

/-- The state after it. -/
def past (zeroForOne : Bool) (next : Int) : Int :=
  if zeroForOne then clamp next - 1 else clamp next

theorem clamp_range (next : Int) : minTick ≤ clamp next ∧ clamp next ≤ maxTick := by
  unfold clamp minTick maxTick
  omega

theorem past_range (zeroForOne : Bool) (next : Int) :
    minTick - 1 ≤ past zeroForOne next ∧ past zeroForOne next ≤ maxTick := by
  have hrange := clamp_range next
  unfold past
  split <;> omega

theorem clamp_of_mem {next : Int} (hmem : next ∈ pool.ticks) : clamp next = next := by
  obtain ⟨hlow, hhigh⟩ := pool.ticks_range next hmem
  unfold clamp
  omega

/-- The liquidity delta of a crossing. -/
def delta (pool : Pool) (zeroForOne : Bool) (next : Int) : Int :=
  if zeroForOne then -pool.net (clamp next) else pool.net (clamp next)

/-- Crossing an initialised tick leads to the liquidity beyond it. -/
theorem liquidityAt_past (htracks : Tracks pool s) {next : Int} {initialized : Bool}
    (hnext : pool.nextTick zeroForOne s.tick = (next, initialized)) :
    pool.liquidityAt (past zeroForOne next) =
      if initialized then s.liquidity + delta pool zeroForOne next else s.liquidity := by
  rw [htracks.liquidity]
  unfold past delta
  cases zeroForOne with
  | true =>
    obtain ⟨hle, hmem, hnone⟩ := Pool.nextTick_down hnext
    simp only [if_true]
    cases initialized with
    | true =>
      have hticks := hmem rfl
      rw [clamp_of_mem hticks, if_pos rfl,
        ← Pool.liquidityAt_eq hle fun u hu hle => (hnone u hu hle).1,
        Pool.liquidityAt_of_mem hticks]
      omega
    | false =>
      rw [if_neg Bool.false_ne_true]
      apply Pool.liquidityAt_eq
      · have hlow := htracks.low
        have hhigh := htracks.high
        unfold clamp
        omega
      · intro u hu hle
        have hlt := (hnone u hu hle).2 rfl
        have hhigh := htracks.high
        unfold clamp
        omega
  | false =>
    obtain ⟨hlt, hmem, hnone⟩ := Pool.nextTick_up hnext
    simp only [Bool.false_eq_true, if_false]
    cases initialized with
    | true =>
      have hticks := hmem rfl
      rw [clamp_of_mem hticks, if_pos rfl, Pool.liquidityAt_of_mem hticks,
        Pool.liquidityAt_eq (by omega : s.tick ≤ next - 1)]
      intro u hu hle
      by_contra hgt
      have hbeyond := (hnone u hu (by omega)).1
      omega
    | false =>
      rw [if_neg Bool.false_ne_true, eq_comm]
      apply Pool.liquidityAt_eq
      · have hhigh := htracks.high
        unfold clamp
        omega
      · intro u hu hle
        by_contra hgt
        have hbeyond := (hnone u hu (by omega)).2 rfl
        have hlow := htracks.low
        have hrange := pool.ticks_range u hu
        unfold clamp at hle
        omega

theorem target_eq (zeroForOne : Bool) (sqrtPriceNext : U256) :
    (if (if zeroForOne then sqrtPriceNext < sqrtPriceLimit zeroForOne
      else sqrtPriceLimit zeroForOne < sqrtPriceNext) then sqrtPriceLimit zeroForOne
      else sqrtPriceNext) = targetOf zeroForOne sqrtPriceNext := by
  unfold targetOf
  cases zeroForOne <;> rfl

/-- A target other than the next price is the limit. -/
theorem targetOf_eq_or (zeroForOne : Bool) (sqrtPriceNext : U256) :
    targetOf zeroForOne sqrtPriceNext = sqrtPriceNext ∨
      targetOf zeroForOne sqrtPriceNext = sqrtPriceLimit zeroForOne := by
  unfold targetOf
  cases zeroForOne
  · simp only [Bool.false_eq_true, if_false]
    split
    · exact .inr rfl
    · exact .inl rfl
  · simp only [if_true]
    split
    · exact .inr rfl
    · exact .inl rfl

theorem step_eq_some :
    s.step math pool zeroForOne fee = some t ↔
      ∃ next initialized, pool.nextTick zeroForOne s.tick = (next, initialized) ∧
        ∃ sqrtPriceNext, math.getSqrtRatioAtTick (clamp next) = some sqrtPriceNext ∧
          ∃ amountIn amountOut feeAmount,
            math.computeSwapStep s.sqrtPrice (targetOf zeroForOne sqrtPriceNext)
                (BitVec.ofInt 128 s.liquidity) s.remaining fee =
              some (t.sqrtPrice, amountIn, amountOut, feeAmount) ∧
            s.land math pool zeroForOne (clamp next) initialized sqrtPriceNext t.sqrtPrice =
              some (t.liquidity, t.tick) ∧
            t.remaining = s.remaining - (amountIn.toNat + feeAmount.toNat : Nat) ∧
            t.paid = s.paid + amountOut.toNat := by
  unfold Swap.step
  simp only [Option.bind_eq_bind, Option.bind_eq_some_iff, Option.some.injEq, Prod.exists,
    target_eq]
  constructor
  · rintro ⟨sqrtPriceNext, hratio, sqrtPrice, amountIn, amountOut, feeAmount, hstep, liquidity,
      tick, hland, rfl⟩
    exact ⟨_, _, rfl, sqrtPriceNext, hratio, amountIn, amountOut, feeAmount, hstep, hland, rfl,
      rfl⟩
  · rintro ⟨next, initialized, hnext, sqrtPriceNext, hratio, amountIn, amountOut, feeAmount,
      hstep, hland, hremaining, hpaid⟩
    rw [hnext]
    refine ⟨sqrtPriceNext, hratio, t.sqrtPrice, amountIn, amountOut, feeAmount, hstep, _, _, hland,
      ?_⟩
    rw [← hremaining, ← hpaid]

/-- A step that reaches its tick. -/
theorem land_of_reached (htracks : Tracks pool s) {next : Int} {initialized : Bool}
    (hnext : pool.nextTick zeroForOne s.tick = (next, initialized)) (sqrtPrice : U256) :
    s.land math pool zeroForOne (clamp next) initialized sqrtPrice sqrtPrice =
      some (pool.liquidityAt (past zeroForOne next), past zeroForOne next) := by
  have hliquidity := liquidityAt_past htracks hnext
  unfold Swap.land
  rw [if_pos rfl]
  cases initialized with
  | false =>
    rw [if_neg Bool.false_ne_true] at hliquidity ⊢
    rw [hliquidity]
    rfl
  | true =>
    rw [if_pos rfl] at hliquidity ⊢
    have hadd : addDelta s.liquidity (delta pool zeroForOne next) =
        some (pool.liquidityAt (past zeroForOne next)) := by
      rw [addDelta, ← hliquidity, if_pos (pool.liquidityAt_range _)]
    change (addDelta s.liquidity (delta pool zeroForOne next)).map _ = _
    rw [hadd]
    rfl

/-- What holds of every state of the loop. -/
def Inv (pool : Pool) (zeroForOne : Bool) (s : Swap) : Prop :=
  0 ≤ s.remaining ∧ (s.Done zeroForOne ∨ Tracks pool s)

/-- A step that does not reach its tick is the last one. -/
theorem done_of_not_reached (hmath : IsUniswapMath math fee) (hpositive : 0 < s.remaining)
    {sqrtPriceNext amountIn amountOut feeAmount : U256}
    (hstep : math.computeSwapStep s.sqrtPrice (targetOf zeroForOne sqrtPriceNext)
        (BitVec.ofInt 128 s.liquidity) s.remaining fee =
      some (t.sqrtPrice, amountIn, amountOut, feeAmount))
    (hremaining : t.remaining = s.remaining - (amountIn.toNat + feeAmount.toNat : Nat))
    (hne : t.sqrtPrice ≠ sqrtPriceNext) : t.Done zeroForOne := by
  by_cases htarget : t.sqrtPrice = targetOf zeroForOne sqrtPriceNext
  · rcases targetOf_eq_or zeroForOne sqrtPriceNext with h | h
    · exact absurd (htarget.trans h) hne
    · exact .inr (htarget.trans h)
  · refine .inl ?_
    rw [hremaining, (hmath.step_cost hpositive hstep).2 htarget, Int.sub_self]

/-- **The liquidity of the loop is the liquidity of the pool**, until it is done. -/
theorem Inv.goes (hmath : IsUniswapMath math fee) (hinv : Inv pool zeroForOne s)
    (hgoes : Goes math pool zeroForOne fee s t) : Inv pool zeroForOne t := by
  obtain ⟨hdone, hstep⟩ := hgoes
  obtain ⟨hnonneg, hinv⟩ := hinv
  have htracks := hinv.resolve_left hdone
  have hpositive : 0 < s.remaining := lt_of_le_of_ne hnonneg fun h => hdone (.inl h.symm)
  obtain ⟨next, initialized, hnext, sqrtPriceNext, hratio, amountIn, amountOut, feeAmount, hstep,
    hland, hremaining, hpaid⟩ := step_eq_some.1 hstep
  refine ⟨?_, ?_⟩
  · have hcost := (hmath.step_cost hpositive hstep).1
    omega
  · by_cases hreached : t.sqrtPrice = sqrtPriceNext
    · rw [hreached, land_of_reached htracks hnext] at hland
      simp only [Option.some.injEq, Prod.mk.injEq] at hland
      obtain ⟨hliquidity, htick⟩ := hland
      obtain ⟨hlow, hhigh⟩ := past_range zeroForOne next
      rw [htick] at hliquidity hlow hhigh
      exact .inr ⟨hlow, hhigh, hliquidity.symm⟩
    · exact .inl (done_of_not_reached hmath hpositive hstep hremaining hreached)

/-! ## The run -/

theorem goes_rightUnique : Relator.RightUnique (Goes math pool zeroForOne fee) := by
  intro s t u ht hu
  exact Option.some.inj (ht.2.symm.trans hu.2)

/-- What a swap pays does not change as it goes on. -/
theorem pays_iff_of_goes (hgoes : Goes math pool zeroForOne fee s t) :
    Pays math pool zeroForOne fee s out ↔ Pays math pool zeroForOne fee t out := by
  constructor
  · rintro ⟨last, hrun, hdone, hpaid⟩
    rcases hrun.cases_head with rfl | ⟨u, hfirst, hrest⟩
    · exact absurd hdone hgoes.1
    · rw [goes_rightUnique hgoes hfirst]
      exact ⟨last, hrest, hdone, hpaid⟩
  · rintro ⟨last, hrun, hdone, hpaid⟩
    exact ⟨last, hrun.head hgoes, hdone, hpaid⟩

/-- Once it is done it has paid what it pays. -/
theorem pays_iff_of_done (hdone : s.Done zeroForOne) :
    Pays math pool zeroForOne fee s out ↔ s.paid = out := by
  constructor
  · rintro ⟨last, hrun, -, hpaid⟩
    rcases hrun.cases_head with rfl | ⟨t, hfirst, -⟩
    · exact hpaid
    · exact absurd hdone hfirst.1
  · exact fun hpaid => ⟨s, .refl, hdone, hpaid⟩

theorem pays_iff_of_advance {n : Nat} (h : advance math pool zeroForOne fee n s = some t) :
    Pays math pool zeroForOne fee s out ↔ Pays math pool zeroForOne fee t out := by
  induction n generalizing s with
  | zero =>
    cases h
    rfl
  | succ n ih =>
    unfold advance at h
    split at h
    · cases h
      rfl
    · rename_i hgoes
      obtain ⟨u, hstep, hrest⟩ := Option.bind_eq_some_iff.1 h
      rw [pays_iff_of_goes ⟨fun hdone => hgoes (.inl hdone), hstep⟩]
      exact ih hrest

end Uniswap

end ArbBot
