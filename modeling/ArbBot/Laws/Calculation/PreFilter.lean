import ArbBot.Laws.Calculation.Rates
import ArbBot.Laws.Contracts.ConstantProduct
import ArbBot.Laws.StateDb
import ArbBot.Lib.Rounding

/-!
# No phantom arbitrage

The pre-filter rounds every rate and the running product down, and the units of the tokens cancel
around a closed path. So a path over constant-product pools that it reports is profitable at
infinitesimal size: the product of what the pools pay exceeds the product of what they cost.
-/

namespace ArbBot

open Lib RateEstimator
open Lib.ConstantProduct (swapOut)

/-- The record an estimator that is seeded with a list goes by: the last one of the address. -/
def recordOf (pools : List RawPool) (address : Address) : Option RawPool :=
  pools.foldl (fun found pool => if pool.address = address then some pool else found) none

/-- A constant-product pool with a fee of 1 to 100 basis points and positive reserves that are
loaded, whose tokens have the decimals `dec`. -/
structure V2Pool (db : StateDb) (dec : Address → UInt8) (pool : RawPool) : Prop where
  family : pool.protocol.isV2 = true
  fee_pos : 1 ≤ pool.fee.toNat
  fee_le : pool.fee.toNat ≤ 100
  order : pool.token0 < pool.token1
  decimals0 : pool.decimals0 = dec pool.token0
  decimals1 : pool.decimals1 = dec pool.token1
  decimals0_le : pool.decimals0.toNat ≤ 18
  decimals1_le : pool.decimals1.toNat ≤ 18
  reserves : ∃ r0 r1, db.readV2Reserves pool.address = some (r0, r1) ∧ r0 ≠ 0 ∧ r1 ≠ 0

/-- A pool with the direction it is used in. -/
structure Hop where
  pool : RawPool
  zeroForOne : Bool

namespace Hop

/-- A step takes a hop if it names its pool and its tokens in the direction of the hop. -/
def TakenBy (hop : Hop) (step : SwapStep) : Prop :=
  step.poolAddress = hop.pool.address ∧
    step.tokenIn = (if hop.zeroForOne then hop.pool.token0 else hop.pool.token1) ∧
    step.tokenOut = (if hop.zeroForOne then hop.pool.token1 else hop.pool.token0)

/-- The reserves of a pool, zero where they are not loaded. -/
def reserves (db : StateDb) (hop : Hop) : U256 × U256 :=
  (db.readV2Reserves hop.pool.address).getD (0, 0)

/-- The exact product of the rates: `10000 * reserve_in` is what the hop costs. -/
def cost (db : StateDb) (hop : Hop) : Nat :=
  10000 * (if hop.zeroForOne then (hop.reserves db).1 else (hop.reserves db).2).toNat

/-- And `fee_factor * reserve_out` is what it pays. -/
def paid (db : StateDb) (hop : Hop) : Nat :=
  (10000 - hop.pool.fee.toNat) *
    (if hop.zeroForOne then (hop.reserves db).2 else (hop.reserves db).1).toNat

end Hop

/-- The steps lead from one token to another. -/
def Joins : Address → List SwapStep → Address → Prop
  | token, [], last => token = last
  | token, step :: steps, last => step.tokenIn = token ∧ Joins step.tokenOut steps last

/-- No product of a cumulative rate with the next rate reaches `2 ^ 256`. -/
def StaysBelow (est : RateEstimator) : List SwapStep → U256 → Prop
  | [], _ => True
  | step :: steps, cumulative =>
    let rate := (est.rates step.poolAddress (decide (step.tokenIn < step.tokenOut))).getD 0
    cumulative.toNat * rate.toNat < 2 ^ 256 ∧
      StaysBelow est steps (mulDiv cumulative rate rateScale)

variable {quote : V3Quote} {db : StateDb} {dec : Address → UInt8} {est : RateEstimator}
  {pools : List RawPool} {pool : RawPool} {weth : Address}

/-! ## What seeding stores -/

/-- The rate of one direction of a constant-product pool. -/
def v2Rate (pool : RawPool) (r0 r1 : U256) (zeroForOne : Bool) : U256 :=
  if zeroForOne then
    normalizedRate (getAmountOutV2 (decimalReference pool.decimals0) r0 r1
      (feeFactor pool.protocol pool.fee)) pool.decimals1
  else
    normalizedRate (getAmountOutV2 (decimalReference pool.decimals1) r1 r0
      (feeFactor pool.protocol pool.fee)) pool.decimals0

theorem recordOf_append (pools : List RawPool) (pool : RawPool) (address : Address) :
    recordOf (pools ++ [pool]) address =
      if pool.address = address then some pool else recordOf pools address := by
  unfold recordOf
  rw [List.foldl_append]
  rfl

@[simp] theorem seedWethPrice_rates (est : RateEstimator) (pool : RawPool) :
    (seedWethPrice weth est pool).rates = est.rates := by
  unfold seedWethPrice
  dsimp only
  repeat' split
  all_goals rfl

theorem seedWethPrices_rates (pools : List RawPool) (est : RateEstimator) :
    (pools.foldl (seedWethPrice weth) est).rates = est.rates := by
  induction pools generalizing est with
  | nil => rfl
  | cons pool pools ih => rw [List.foldl_cons, ih, seedWethPrice_rates]

theorem PoolProtocol.isV2_not {protocol : PoolProtocol} (h : protocol.isV2 = true) :
    protocol.isReserveBased = true ∧ protocol ≠ .aerodrome := by
  cases protocol <;> revert h <;> decide

/-- Seeding a pool sets its two rates and no other. -/
theorem seedPool_rates (hpool : V2Pool db dec pool) {r0 r1 : U256}
    (hreserves : db.readV2Reserves pool.address = some (r0, r1)) (hr0 : r0 ≠ 0) (hr1 : r1 ≠ 0)
    (address : Address) (zeroForOne : Bool) :
    (seedPool quote db est pool).rates address zeroForOne =
      if address = pool.address then some (v2Rate pool r0 r1 zeroForOne)
      else est.rates address zeroForOne := by
  obtain ⟨hbased, haerodrome⟩ := PoolProtocol.isV2_not hpool.family
  simp only [seedPool_reserveBased hbased, insertReserveRates, hreserves, hr0, hr1, or_self,
    if_false, reserveAmountOut, haerodrome, RateEstimator.insert, v2Rate]
  by_cases ha : address = pool.address
  · cases zeroForOne <;> simp [ha]
  · simp [ha]

variable (quote est weth) in
/-- After seeding, the rates of a pool are those of its record. -/
theorem seeded_rate (hpools : ∀ pool ∈ pools, V2Pool db dec pool)
    (hrecord : recordOf pools pool.address = some pool) :
    pool ∈ pools ∧ ∀ {r0 r1 : U256}, db.readV2Reserves pool.address = some (r0, r1) →
      ∀ zeroForOne, (seedFromRawPools quote est pools weth db).rates pool.address zeroForOne =
        some (v2Rate pool r0 r1 zeroForOne) := by
  unfold seedFromRawPools
  rw [seedWethPrices_rates]
  induction pools using List.reverseRecOn with
  | nil => cases hrecord
  | append_singleton pools last ih =>
    rw [recordOf_append] at hrecord
    have hlast := hpools last (by simp)
    obtain ⟨r0, r1, hloaded, hr0, hr1⟩ := hlast.reserves
    split at hrecord
    · cases hrecord
      refine ⟨by simp, fun hreserves zeroForOne => ?_⟩
      rw [hloaded] at hreserves
      cases hreserves
      rw [List.foldl_append, List.foldl_cons, List.foldl_nil,
        seedPool_rates hlast hloaded hr0 hr1, if_pos rfl]
    · rename_i hne
      obtain ⟨hmem, hrates⟩ := ih (fun pool hmem => hpools pool (List.mem_append_left _ hmem))
        hrecord
      refine ⟨List.mem_append_left _ hmem, fun hreserves zeroForOne => ?_⟩
      rw [List.foldl_append, List.foldl_cons, List.foldl_nil,
        seedPool_rates hlast hloaded hr0 hr1, if_neg (Ne.symm hne)]
      exact hrates hreserves zeroForOne

/-! ## What a rate is worth -/

theorem toNat_decimalReference {decimals : UInt8} (h : decimals.toNat ≤ 18) :
    (decimalReference decimals).toNat = 10 ^ decimals.toNat ∧ 10 ^ decimals.toNat < 2 ^ 112 := by
  have hle : 10 ^ decimals.toNat ≤ 10 ^ 18 := Nat.pow_le_pow_right (by decide) h
  have hlt : (10 : Nat) ^ 18 < 2 ^ 112 := by decide
  refine ⟨toNat_ofNat_of_lt ?_, lt_of_le_of_lt hle hlt⟩
  exact lt_of_le_of_lt hle (hlt.trans (by decide))

/-- Where the scaled amount fits into a word. -/
theorem normalizedRate_eq {amountOut scaled : U256}
    (hscaled : checkedMul amountOut rateScale = some scaled) (decimals : UInt8) :
    normalizedRate amountOut decimals =
      if decimalReference decimals = 0 ∨ amountOut = 0 then 0
      else scaled / decimalReference decimals := by
  unfold normalizedRate
  rw [hscaled]

/-- A normalised rate is the amount in units, rounded down. -/
theorem normalizedRate_le {amountOut : U256} {decimals : UInt8}
    (hamount : amountOut.toNat < 2 ^ 112) (hdecimals : decimals.toNat ≤ 18) :
    (normalizedRate amountOut decimals).toNat * 10 ^ decimals.toNat ≤
      amountOut.toNat * 10 ^ 18 := by
  obtain ⟨hdec, -⟩ := toNat_decimalReference hdecimals
  have hfits : amountOut.toNat * rateScale.toNat < 2 ^ 256 := by
    rw [toNat_rateScale]
    omega
  obtain ⟨scaled, hscaled, hvalue⟩ := exists_checkedMul hfits
  rw [toNat_rateScale] at hvalue
  rw [normalizedRate_eq hscaled, ← hvalue, ← hdec]
  split
  · exact Nat.zero_mul _ ▸ Nat.zero_le _
  · rw [BitVec.toNat_udiv]
    exact Nat.div_mul_le_self _ _

/-- What a rate times the cost of its hop is at most worth, in the units of the two tokens. -/
theorem v2Rate_le {reserveIn reserveOut : U256} {decimalsIn decimalsOut : UInt8}
    {factor : UInt64} (hin : reserveIn ≠ 0) (hout : reserveOut ≠ 0)
    (hreserveIn : reserveIn.toNat < 2 ^ 112) (hreserveOut : reserveOut.toNat < 2 ^ 112)
    (hfactor : factor.toNat ≤ 10000) (hdecimalsIn : decimalsIn.toNat ≤ 18)
    (hdecimalsOut : decimalsOut.toNat ≤ 18) :
    (normalizedRate (getAmountOutV2 (decimalReference decimalsIn) reserveIn reserveOut factor)
        decimalsOut).toNat * (10 ^ decimalsOut.toNat * (10000 * reserveIn.toNat)) ≤
      10 ^ 18 * (10 ^ decimalsIn.toNat * (factor.toNat * reserveOut.toNat)) := by
  obtain ⟨hunit, hunit_lt⟩ := toNat_decimalReference hdecimalsIn
  rw [← hunit] at hunit_lt ⊢
  generalize decimalReference decimalsIn = unit at hunit_lt ⊢
  have hpos : 0 < reserveOut.toNat := toNat_pos hout
  have hposIn : 0 < reserveIn.toNat := toNat_pos hin
  have hamount := toNat_getAmountOutV2 hin hout
    (ProductFits.of_112 hin hfactor hunit_lt hreserveIn hreserveOut)
  generalize getAmountOutV2 unit reserveIn reserveOut factor = amountOut at hamount ⊢
  have hsmall : amountOut.toNat < 2 ^ 112 := by
    rw [hamount]
    exact (ConstantProduct.swapOut_lt hposIn (by decide) hpos).trans hreserveOut
  -- a larger divisor pays less than the exact quotient of the reserves
  have hswap : amountOut.toNat * (10000 * reserveIn.toNat) ≤
      unit.toNat * (factor.toNat * reserveOut.toNat) := by
    rw [hamount, swapOut]
    calc _ ≤ unit.toNat * factor.toNat * reserveOut.toNat /
            (reserveIn.toNat * 10000 + unit.toNat * factor.toNat) *
            (reserveIn.toNat * 10000 + unit.toNat * factor.toNat) :=
          Nat.mul_le_mul_left _ (by omega)
      _ ≤ unit.toNat * factor.toNat * reserveOut.toNat := Nat.div_mul_le_self _ _
      _ = unit.toNat * (factor.toNat * reserveOut.toNat) := Nat.mul_assoc _ _ _
  calc _ = (normalizedRate amountOut decimalsOut).toNat * 10 ^ decimalsOut.toNat *
          (10000 * reserveIn.toNat) := (Nat.mul_assoc _ _ _).symm
    _ ≤ amountOut.toNat * 10 ^ 18 * (10000 * reserveIn.toNat) :=
        Nat.mul_le_mul_right _ (normalizedRate_le hsmall hdecimalsOut)
    _ = 10 ^ 18 * (amountOut.toNat * (10000 * reserveIn.toNat)) := by ring
    _ ≤ 10 ^ 18 * (unit.toNat * (factor.toNat * reserveOut.toNat)) := Nat.mul_le_mul_left _ hswap

/-! ## Along a path -/

theorem Hop.cost_pos {hop : Hop} (hpool : V2Pool db dec hop.pool) : 0 < hop.cost db := by
  obtain ⟨r0, r1, hloaded, hr0, hr1⟩ := hpool.reserves
  have hpos0 : 0 < r0.toNat := toNat_pos hr0
  have hpos1 : 0 < r1.toNat := toNat_pos hr1
  rw [Hop.cost, Hop.reserves, hloaded, Option.getD_some]
  split
  · exact Nat.mul_pos (by decide) hpos0
  · exact Nat.mul_pos (by decide) hpos1

/-- The direction the estimator looks a step up in is the direction of its hop. -/
theorem Hop.TakenBy.direction {hop : Hop} {step : SwapStep} (htaken : hop.TakenBy step)
    (hpool : V2Pool db dec hop.pool) :
    decide (step.tokenIn < step.tokenOut) = hop.zeroForOne := by
  obtain ⟨-, hin, hout⟩ := htaken
  rw [hin, hout]
  cases hop.zeroForOne with
  | true => exact decide_eq_true hpool.order
  | false => exact decide_eq_false (BitVec.lt_asymm hpool.order)

variable (quote est weth) in
/-- **The rate of a hop**, times what the hop costs, is at most what it pays, in the units of its
tokens. -/
theorem seeded_hop {hop : Hop} {step : SwapStep} (hpools : ∀ pool ∈ pools, V2Pool db dec pool)
    (hrecord : recordOf pools hop.pool.address = some hop.pool) (htaken : hop.TakenBy step) :
    (((seedFromRawPools quote est pools weth db).rates step.poolAddress
        (decide (step.tokenIn < step.tokenOut))).getD 0).toNat *
        (10 ^ (dec step.tokenOut).toNat * hop.cost db) ≤
      10 ^ 18 * (10 ^ (dec step.tokenIn).toNat * hop.paid db) := by
  obtain ⟨hmem, hrates⟩ := seeded_rate quote est weth hpools hrecord
  have hpool := hpools _ hmem
  obtain ⟨r0, r1, hloaded, hr0, hr1⟩ := hpool.reserves
  obtain ⟨hlt0, hlt1⟩ := StateDb.readV2Reserves_lt hloaded
  have hfactor := feeFactor_of_csv hop.pool.protocol hpool.fee_pos hpool.fee_le
  have hfactor_le : (feeFactor hop.pool.protocol hop.pool.fee).toNat ≤ 10000 := by omega
  rw [htaken.direction hpool, htaken.1, hrates hloaded, Option.getD_some]
  obtain ⟨-, hin, hout⟩ := htaken
  rw [hin, hout, Hop.cost, Hop.paid, Hop.reserves, hloaded, Option.getD_some, ← hfactor, v2Rate]
  cases hop.zeroForOne with
  | true =>
    simp only [if_true]
    rw [← hpool.decimals0, ← hpool.decimals1]
    exact v2Rate_le hr0 hr1 hlt0 hlt1 hfactor_le hpool.decimals0_le hpool.decimals1_le
  | false =>
    simp only [Bool.false_eq_true, if_false]
    rw [← hpool.decimals0, ← hpool.decimals1]
    exact v2Rate_le hr1 hr0 hlt1 hlt0 hfactor_le hpool.decimals1_le hpool.decimals0_le

theorem toNat_mulDiv_rateScale {value rate : U256} (h : value.toNat * rate.toNat < 2 ^ 256) :
    (mulDiv value rate rateScale).toNat = value.toNat * rate.toNat / 10 ^ 18 := by
  obtain ⟨product, hproduct, hvalue⟩ := exists_checkedMul h
  have hne : rateScale ≠ 0 := by decide
  rw [mulDiv, if_neg hne, hproduct, ← hvalue, ← toNat_rateScale]
  exact BitVec.toNat_udiv

/-- Along a walk, the product of the rates times all that the hops cost is at most the product
before times all that they pay, in the units of the two ends. -/
theorem evaluateSteps_le (hpools : ∀ pool ∈ pools, V2Pool db dec pool) {hops : List Hop}
    {steps : List SwapStep} (htaken : List.Forall₂ Hop.TakenBy hops steps) {first last : Address}
    (hrecords : ∀ hop ∈ hops, recordOf pools hop.pool.address = some hop.pool)
    {token : Address} (hjoins : Joins token steps last) {value : U256}
    (hbelow : StaysBelow (seedFromRawPools quote est pools weth db) steps value)
    {cost paid : Nat} (hcost : value.toNat * (10 ^ (dec token).toNat * cost) ≤
      10 ^ 18 * (10 ^ (dec first).toNat * paid)) :
    ((seedFromRawPools quote est pools weth db).evaluateSteps steps value).toNat *
        (10 ^ (dec last).toNat * (cost * (hops.map (Hop.cost db)).prod)) ≤
      10 ^ 18 * (10 ^ (dec first).toNat * (paid * (hops.map (Hop.paid db)).prod)) := by
  induction htaken generalizing token value cost paid with
  | nil =>
    cases hjoins
    rw [evaluateSteps, List.map_nil, List.map_nil, List.prod_nil, Nat.mul_one, Nat.mul_one]
    exact hcost
  | @cons hop step hops steps htaken _ ih =>
    obtain ⟨rfl, hjoins⟩ := hjoins
    obtain ⟨hfits, hbelow⟩ := hbelow
    have hrate := seeded_hop quote est weth hpools
      (hrecords hop (by simp)) htaken
    have hstep := rounded_exchange (by decide) (Nat.pow_pos (by decide)) hcost hrate
    rw [← toNat_mulDiv_rateScale hfits] at hstep
    have hrest := ih (fun hop hmem => hrecords hop (List.mem_cons_of_mem _ hmem)) hjoins hbelow
      hstep
    rw [Nat.mul_assoc cost, Nat.mul_assoc paid] at hrest
    rw [List.map_cons, List.prod_cons, List.map_cons, List.prod_cons, evaluateSteps]
    dsimp only
    split
    · exact (Nat.zero_mul _).symm ▸ Nat.zero_le _
    split
    · exact (Nat.zero_mul _).symm ▸ Nat.zero_le _
    · exact hrest

/-- **A reported path is profitable at infinitesimal size**: after seeding with a list of
constant-product pools, a closed path over their records that the pre-filter reports, and whose
products do not overflow, pays more than it costs. -/
theorem isProfitable_sound (quote : V3Quote) (est : RateEstimator) (weth : Address)
    (hpools : ∀ pool ∈ pools, V2Pool db dec pool) {hops : List Hop} {path : SwapPath}
    (htaken : List.Forall₂ Hop.TakenBy hops path.steps)
    (hrecords : ∀ hop ∈ hops, recordOf pools hop.pool.address = some hop.pool)
    {token : Address} (hclosed : Joins token path.steps token)
    (hbelow : StaysBelow (seedFromRawPools quote est pools weth db) path.steps rateScale)
    (hreported : (seedFromRawPools quote est pools weth db).isProfitable path = true) :
    (hops.map (Hop.cost db)).prod < (hops.map (Hop.paid db)).prod := by
  have hgain := of_decide_eq_true hreported
  rw [BitVec.lt_def, toNat_rateScale, evaluatePath] at hgain
  have hstart : rateScale.toNat * (10 ^ (dec token).toNat * 1) ≤
      10 ^ 18 * (10 ^ (dec token).toNat * 1) := by rw [toNat_rateScale]
  have hvalue := evaluateSteps_le hpools htaken hrecords hclosed hbelow hstart
  rw [Nat.one_mul, Nat.one_mul] at hvalue
  refine cost_lt_of_rounded (Nat.pow_pos (by decide)) ?_ hvalue hgain
  refine List.prod_pos_iff_forall_pos_nat.2 fun cost hmem => ?_
  obtain ⟨hop, hhop, rfl⟩ := List.mem_map.1 hmem
  exact hop.cost_pos (hpools _ (seeded_rate quote est weth hpools
    (hrecords hop hhop)).1)

/-! ### A price gap -/

/-- Two pools of 1000 units of token 7, with 18 decimals, against 2.5 and 2.6 million of token 8,
with 6. -/
def gapDb : StateDb :=
  (StateDb.empty.updateSlot 21845 8 ((2500000000000 : U256) <<< 112 ||| 1000000000000000000000)
    ).updateSlot 26214 8 ((2600000000000 : U256) <<< 112 ||| 1000000000000000000000)

def gapPool (address : Address) : RawPool := ⟨address, 7, 8, 18, 6, 30, 0, .uniswapV2⟩

def gapPools : List RawPool := [gapPool 21845, gapPool 26214]

/-- Token 7 is sold where it is dear and bought where it is cheap. -/
def gapHops : List Hop := [⟨gapPool 26214, true⟩, ⟨gapPool 21845, false⟩]

def gapPath : SwapPath :=
  SwapPath.new (fun _ => 0) (gapHops.map fun hop => hop.pool.toStep hop.zeroForOne)

def gapDecimals (token : Address) : UInt8 := if token = 7 then 18 else 6

theorem v2Pool_gapPool {address : Address} (h : address = 21845 ∨ address = 26214) :
    V2Pool gapDb gapDecimals (gapPool address) where
  family := rfl
  fee_pos := show 1 ≤ (30 : UInt32).toNat by decide
  fee_le := show (30 : UInt32).toNat ≤ 100 by decide
  order := show (7 : Address) < 8 by decide
  decimals0 := show 18 = gapDecimals 7 by decide
  decimals1 := show 6 = gapDecimals 8 by decide
  decimals0_le := show (18 : UInt8).toNat ≤ 18 by decide
  decimals1_le := show (6 : UInt8).toNat ≤ 18 by decide
  reserves := by
    obtain rfl | rfl := h
    · exact ⟨1000000000000000000000, 2500000000000, by decide⟩
    · exact ⟨1000000000000000000000, 2600000000000, by decide⟩

theorem gapPools_v2Pool : ∀ pool ∈ gapPools, V2Pool gapDb gapDecimals pool := by
  intro pool hmem
  simp only [gapPools, List.mem_cons, List.not_mem_nil, or_false] at hmem
  obtain rfl | rfl := hmem
  · exact v2Pool_gapPool (.inl rfl)
  · exact v2Pool_gapPool (.inr rfl)

theorem gapPath_taken : List.Forall₂ Hop.TakenBy gapHops gapPath.steps :=
  .cons ⟨rfl, rfl, rfl⟩ (.cons ⟨rfl, rfl, rfl⟩ .nil)

theorem isProfitable_sound_gap :
    (gapHops.map (Hop.cost gapDb)).prod < (gapHops.map (Hop.paid gapDb)).prod :=
  isProfitable_sound V3Quote.missing RateEstimator.new 7 gapPools_v2Pool gapPath_taken
    (by decide) ⟨rfl, rfl, rfl⟩ ⟨by decide +kernel, by decide +kernel, trivial⟩
    (by decide +kernel)

end ArbBot
