import ArbBot.Calculation.Aerodrome
import ArbBot.Calculation.V2
import ArbBot.Lib.Word
import ArbBot.StateDb

/-!
# The rate estimator

`calculation/rates.rs`: one normalised rate per pool and direction (`10 ^ 18` is break-even), and
the product of the rates along a path. The quote of a concentrated-liquidity pool, which walks the
tick bitmap, is the parameter `V3Quote`; whatever it answers, the estimator stores it the same way.
-/

namespace ArbBot

open Lib

/-- `get_amount_out_v3`: from the database, pool, amount, direction, fee and tick spacing. -/
abbrev V3Quote := StateDb → Address → U256 → Bool → UInt32 → Int32 → Option U256

/-- No pool has the state a quote needs. -/
def V3Quote.missing : V3Quote := fun _ _ _ _ _ _ => none

/-- The break-even rate. -/
def rateScale : U256 := 1000000000000000000

/-- `decimal_reference`. -/
def decimalReference (decimals : UInt8) : U256 := pow10 decimals

/-- `normalized_rate`. -/
def normalizedRate (amountOut : U256) (outDecimals : UInt8) : U256 :=
  let dec := decimalReference outDecimals
  if dec = 0 ∨ amountOut = 0 then 0
  else
    match checkedMul amountOut rateScale with
    | some scaled => scaled / dec
    | none =>
      let shiftedA := amountOut >>> 64
      let sdec := dec >>> 64
      if sdec = 0 then 0 else shiftedA * rateScale / sdec

/-- `mul_div`. -/
def mulDiv (a b d : U256) : U256 :=
  if d = 0 then 0
  else
    match checkedMul a b with
    | some product => product / d
    | none =>
      let shiftedA := a >>> 64
      let shiftedD := d >>> 64
      if shiftedD = 0 then BitVec.allOnes 256 else shiftedA * b / shiftedD

/-- The rates by pool and direction, and the prices against the wrapped native token. -/
structure RateEstimator where
  rates : Address → Bool → Option U256
  tokenWethPrices : Address → Option U256

namespace RateEstimator

def new : RateEstimator := ⟨fun _ _ => none, fun _ => none⟩

/-- `self.rates.insert((pool, zero_for_one), rate)`. -/
def insert (est : RateEstimator) (pool : Address) (zeroForOne : Bool) (rate : U256) :
    RateEstimator :=
  { est with
    rates := fun p d => if p = pool ∧ d = zeroForOne then some rate else est.rates p d }

/-- `invalidate_pool`. -/
def invalidatePool (est : RateEstimator) (pool : Address) : RateEstimator :=
  { est with rates := fun p d => if p = pool then none else est.rates p d }

/-- `update_v2_rate`. -/
def updateV2Rate (est : RateEstimator) (db : StateDb) (pool : Address)
    (decimals0 decimals1 : UInt8) (feeFactor : UInt64) : RateEstimator :=
  match db.readV2Reserves pool with
  | none => est
  | some (reserve0, reserve1) =>
    if reserve0 = 0 ∨ reserve1 = 0 then est
    else
      let out0to1 := getAmountOutV2 (decimalReference decimals0) reserve0 reserve1 feeFactor
      let out1to0 := getAmountOutV2 (decimalReference decimals1) reserve1 reserve0 feeFactor
      (est.insert pool true (normalizedRate out0to1 decimals1)).insert pool false
        (normalizedRate out1to0 decimals0)

/-- A quote stored for one direction, unless it is missing or zero. -/
def insertQuote (est : RateEstimator) (pool : Address) (zeroForOne : Bool) (outDecimals : UInt8) :
    Option U256 → RateEstimator
  | none => est
  | some out => if out = 0 then est else est.insert pool zeroForOne (normalizedRate out outDecimals)

/-- `update_v3_rate`. -/
def updateV3Rate (est : RateEstimator) (quote : V3Quote) (db : StateDb) (pool : Address)
    (decimals0 decimals1 : UInt8) (fee : UInt32) (tickSpacing : Int32) : RateEstimator :=
  let est := est.insertQuote pool true decimals1
    (quote db pool (decimalReference decimals0) true fee tickSpacing)
  est.insertQuote pool false decimals0
    (quote db pool (decimalReference decimals1) false fee tickSpacing)

/-- `update_exotic_passthrough`. -/
def updateExoticPassthrough (est : RateEstimator) (pool : Address) : RateEstimator :=
  (est.insert pool true rateScale).insert pool false rateScale

/-- `update_v3_passthrough_with_fee`. -/
def updateV3PassthroughWithFee (est : RateEstimator) (pool : Address) (fee : UInt32) :
    RateEstimator :=
  let discounted : U256 :=
    if fee.toNat < 1000000 then rateScale * BitVec.ofNat 256 (1000000 - fee.toNat) / 1000000 else 0
  (est.insert pool true discounted).insert pool false discounted

/-- One direction of `update_v3_spot_rate`: the amount out before the fee, with the fee deducted
and normalised, is stored unless it is zero. -/
def insertSpot (est : RateEstimator) (pool : Address) (zeroForOne : Bool) (outDecimals : UInt8)
    (fee : UInt32) : Option U256 → RateEstimator
  | none => est
  | some rawOut =>
    let feeNum : U256 := BitVec.ofNat 256 (1000000 - min fee.toNat 999999)
    let rate := normalizedRate (rawOut * feeNum / 1000000) outDecimals
    if rate = 0 then est else est.insert pool zeroForOne rate

/-- `update_v3_spot_rate`. -/
def updateV3SpotRate (est : RateEstimator) (db : StateDb) (pool : Address)
    (decimals0 decimals1 : UInt8) (fee : UInt32) : RateEstimator :=
  match db.readV3Slot0 pool with
  | none => est
  | some (sqrtPriceX96, _) =>
    if sqrtPriceX96 = 0 then est
    else
      let q96 : U256 := 1 <<< 96
      let rawOut0 := do
        let step1 ← checkedMul (decimalReference decimals0) sqrtPriceX96
        let step2 ← checkedMul (step1 >>> 96) sqrtPriceX96
        some (step2 >>> 96)
      let est := est.insertSpot pool true decimals1 fee rawOut0
      let rawOut1 := do
        let step1 ← checkedMul (decimalReference decimals1) q96
        let step2 ← checkedMul (step1 / sqrtPriceX96) q96
        some (step2 / sqrtPriceX96)
      est.insertSpot pool false decimals0 fee rawOut1

/-- `update_aerodrome_rate`. -/
def updateAerodromeRate (est : RateEstimator) (db : StateDb) (pool : Address)
    (decimals0 decimals1 : UInt8) (stable : Bool) (feeBps : UInt64) : RateEstimator :=
  match db.readV2Reserves pool with
  | none => est
  | some (reserve0, reserve1) =>
    if reserve0 = 0 ∨ reserve1 = 0 then est
    else
      let out (amount : U256) (zeroForOne : Bool) : U256 :=
        getAmountOutAerodrome amount reserve0 reserve1 decimals0 decimals1 stable feeBps zeroForOne
      let est := est.insert pool true
        (normalizedRate (out (decimalReference decimals0) true) decimals1)
      est.insert pool false (normalizedRate (out (decimalReference decimals1) false) decimals0)

/-- The fee factor of a constant-product pool: from its `fee` field when that is 1 to 100 basis
points, else the protocol's own. -/
def feeFactor (protocol : PoolProtocol) (fee : UInt32) : UInt64 :=
  let csvFactor := saturatingSub 10000 fee.toUInt64
  if 9900 ≤ csvFactor ∧ csvFactor < 10000 then csvFactor else protocol.v2FeeFactor

/-- The amount out the estimator computes for a reserve-based pool: its choice of invariant and of
fee. -/
def reserveAmountOut (protocol : PoolProtocol) (tickSpacing : Int32) (fee : UInt32)
    (decimals0 decimals1 : UInt8) (amountIn reserve0 reserve1 : U256) (zeroForOne : Bool) : U256 :=
  if protocol = .aerodrome then
    getAmountOutAerodrome amountIn reserve0 reserve1 decimals0 decimals1
      (decide (tickSpacing = 0)) fee.toUInt64 zeroForOne
  else
    getAmountOutV2 amountIn (if zeroForOne then reserve0 else reserve1)
      (if zeroForOne then reserve1 else reserve0) (feeFactor protocol fee)

/-- The rates of both directions from an amount-out function, if the reserves are loaded and
positive. -/
def insertReserveRates (est : RateEstimator) (db : StateDb) (pool : Address)
    (decimals0 decimals1 : UInt8) (out : U256 → U256 → U256 → Bool → U256) : RateEstimator :=
  match db.readV2Reserves pool with
  | none => est
  | some (reserve0, reserve1) =>
    if reserve0 = 0 ∨ reserve1 = 0 then est
    else
      (est.insert pool true
        (normalizedRate (out (decimalReference decimals0) reserve0 reserve1 true) decimals1)).insert
        pool false
        (normalizedRate (out (decimalReference decimals1) reserve0 reserve1 false) decimals0)

/-- Phase 1 of `seed_from_raw_pools` for one pool. -/
def seedPool (quote : V3Quote) (db : StateDb) (est : RateEstimator) (pool : RawPool) :
    RateEstimator :=
  if pool.protocol.isV3 then
    est.updateV3Rate quote db pool.address pool.decimals0 pool.decimals1 pool.fee pool.tickSpacing
  else if pool.protocol = .aerodrome then
    est.updateAerodromeRate db pool.address pool.decimals0 pool.decimals1
      (decide (pool.tickSpacing = 0)) pool.fee.toUInt64
  else if pool.protocol.isExotic then est.updateExoticPassthrough pool.address
  else
    est.updateV2Rate db pool.address pool.decimals0 pool.decimals1
      (feeFactor pool.protocol pool.fee)

/-- Phase 2 of `seed_from_raw_pools` for one pool: the price of the token it pairs with the
wrapped native one, unless the token has a price already. -/
def seedWethPrice (wethAddr : Address) (est : RateEstimator) (pool : RawPool) : RateEstimator :=
  let store (token : Address) (zeroForOne : Bool) : RateEstimator :=
    match est.rates pool.address zeroForOne, est.tokenWethPrices token with
    | some rate, none =>
      if rate = 0 then est
      else
        { est with
          tokenWethPrices := fun t => if t = token then some rate else est.tokenWethPrices t }
    | _, _ => est
  if pool.token0 = wethAddr then store pool.token1 false
  else if pool.token1 = wethAddr then store pool.token0 true
  else est

/-- `seed_from_raw_pools`. -/
def seedFromRawPools (quote : V3Quote) (est : RateEstimator) (pools : List RawPool)
    (wethAddr : Address) (db : StateDb) : RateEstimator :=
  pools.foldl (seedWethPrice wethAddr) (pools.foldl (seedPool quote db) est)

/-- The loop of `evaluate_path`, from the cumulative rate so far. -/
def evaluateSteps (est : RateEstimator) : List SwapStep → U256 → U256
  | [], cumulative => cumulative
  | step :: steps, cumulative =>
    let zeroForOne := decide (step.tokenIn < step.tokenOut)
    let rate := (est.rates step.poolAddress zeroForOne).getD 0
    if rate = 0 then 0
    else
      let cumulative := mulDiv cumulative rate rateScale
      if cumulative = 0 then 0 else est.evaluateSteps steps cumulative

/-- `evaluate_path`. -/
def evaluatePath (est : RateEstimator) (path : SwapPath) : U256 :=
  est.evaluateSteps path.steps rateScale

/-- `is_profitable`. -/
def isProfitable (est : RateEstimator) (path : SwapPath) : Bool :=
  decide (rateScale < est.evaluatePath path)

end RateEstimator

end ArbBot
