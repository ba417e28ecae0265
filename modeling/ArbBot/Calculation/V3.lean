import ArbBot.Calculation.Rates
import ArbBot.Lib.Signed

/-!
# Concentrated-liquidity quotes

`calculation/v3.rs`: a quote walks the tick bitmap of the local database, one step of the swap at
a time. The tick and step functions of the `uniswap_v3_math` crate are the parameter `V3Math`.
Ticks, amounts left and other signed numbers are integers. A division by zero, which panics, gives
no quote here.
-/

namespace ArbBot

open Lib

/-- `uniswap_v3_math`: `get_sqrt_ratio_at_tick`, `get_tick_at_sqrt_ratio`, and `compute_swap_step`
of the price, the target, the liquidity, the amount left and the fee, which gives the new price,
the amount in, the amount out and the fee. -/
structure V3Math where
  getSqrtRatioAtTick : Int → Option U256
  getTickAtSqrtRatio : U256 → Option Int
  computeSwapStep : U256 → U256 → BitVec 128 → Int → UInt32 → Option (U256 × U256 × U256 × U256)

namespace V3

def minSqrtRatio : U256 := 4295128739
def maxSqrtRatio : U256 := 1461446703485210103287273052203988822378723970342

def maxTickIterations : Nat := 500

def minTick : Int := -887272
def maxTick : Int := 887272

/-- `sqrt_price_limit`. -/
def sqrtPriceLimit (zeroForOne : Bool) : U256 :=
  if zeroForOne then minSqrtRatio + 1 else maxSqrtRatio - 1

/-! ## The tick bitmap -/

/-- The position of the highest bit that is set. -/
def mostSignificantBit (x : U256) : Nat := x.toNat.log2

/-- The position of the lowest bit that is set. -/
def leastSignificantBit (x : U256) : Nat := x.ctz.toNat

/-- The tick divided by the spacing, rounded down for a positive spacing. -/
def compress (tick tickSpacing : Int) : Option Int :=
  if tickSpacing = 0 ∨ tick = -2 ^ 31 ∧ tickSpacing = -1 then none
  else if tick < 0 ∧ tick.tmod tickSpacing ≠ 0 then
    some (wrapInt 32 (tick.tdiv tickSpacing - 1))
  else some (tick.tdiv tickSpacing)

/-- Where the search starts: at the tick itself, or at the next one. -/
def searchFrom (zeroForOne : Bool) (compressed : Int) : Int :=
  if zeroForOne then compressed else wrapInt 32 (compressed + 1)

/-- `word_pos`: the bitmap word of an index. -/
def wordPos (index : Int) : BitVec 16 := BitVec.ofInt 16 (index >>> (8 : Nat))

/-- `bit_pos`: the bit of an index within its word. -/
def bitPos (index : Int) : Nat := ((index.tmod 256 + 256).tmod 256).toNat

/-- The bits at and below a position, or at and above it. -/
def searchMask (zeroForOne : Bool) (bit : Nat) : U256 :=
  if zeroForOne then
    if bit = 255 then BitVec.allOnes 256 else ((1 : U256) <<< (bit + 1)) - 1
  else BitVec.allOnes 256 <<< bit

/-- The next tick within the word of an index, and whether it is initialised: the nearest bit that
is set, else the end of the word. -/
def scanWord (zeroForOne : Bool) (tickSpacing index : Int) (bitmap : U256) : Int × Bool :=
  let word := (wordPos index).toInt
  let masked := bitmap &&& searchMask zeroForOne (bitPos index)
  if zeroForOne then
    if masked ≠ 0 then
      (wrapInt 32 ((word * 256 + mostSignificantBit masked) * tickSpacing), true)
    else (wrapInt 32 (word * 256 * tickSpacing), false)
  else
    if masked ≠ 0 then
      (wrapInt 32 ((word * 256 + leastSignificantBit masked) * tickSpacing), true)
    else (wrapInt 32 (((word + 1) * 256 - 1) * tickSpacing), false)

/-- The bitmap word of an index. A word that is not loaded reads as zero. -/
def readWordOf (keccak : Keccak) (db : BlockStateDb) (pool : Address) (index : Int) : U256 :=
  (db.readV3TickBitmap keccak pool (wordPos index)).getD 0

/-- `find_next_initialized_tick`. -/
def findNextInitializedTick (keccak : Keccak) (db : BlockStateDb) (pool : Address)
    (tick tickSpacing : Int) (zeroForOne : Bool) : Option (Int × Bool) :=
  (compress tick tickSpacing).map fun compressed =>
    scanWord zeroForOne tickSpacing (searchFrom zeroForOne compressed)
      (readWordOf keccak db pool (searchFrom zeroForOne compressed))

/-! ## The walk -/

/-- The state of a walk. -/
structure Walk where
  sqrtPrice : U256
  liq : BitVec 128
  amountRemaining : Int
  amountCalculated : U256
  tick : Int
  deriving DecidableEq

/-- `I256::try_from`. -/
def tryI256 (x : U256) : Option Int := checkedInt 256 x.toNat

/-- The step of a walk to the next tick: that tick, whether it is initialised, its price, and what
`compute_swap_step` gives. -/
structure Hop where
  nextTick : Int
  initialized : Bool
  sqrtPriceNext : U256
  newSqrtPrice : U256
  amountInStep : U256
  amountOutStep : U256
  feeAmount : U256

variable (math : V3Math) (keccak : Keccak) (db : BlockStateDb) (pool : Address)
  (zeroForOne : Bool) (fee : UInt32) (tickSpacing : Int)

/-- Up to `compute_swap_step`. -/
def hop (w : Walk) : Option Hop := do
  let (next, initialized) ←
    findNextInitializedTick keccak db pool w.tick tickSpacing zeroForOne
  let nextTick := max minTick (min next maxTick)
  let sqrtPriceNext ← math.getSqrtRatioAtTick nextTick
  let limit := sqrtPriceLimit zeroForOne
  let target :=
    if zeroForOne then (if sqrtPriceNext < limit then limit else sqrtPriceNext)
    else (if limit < sqrtPriceNext then limit else sqrtPriceNext)
  let (newSqrtPrice, amountInStep, amountOutStep, feeAmount) ←
    math.computeSwapStep w.sqrtPrice target w.liq w.amountRemaining fee
  some ⟨nextTick, initialized, sqrtPriceNext, newSqrtPrice, amountInStep, amountOutStep,
    feeAmount⟩

/-- The liquidity beyond a tick: the arithmetic is that of `i128`. -/
def crossTick (liq liquidityNet : BitVec 128) : Option (BitVec 128) :=
  (checkedInt 128 (if zeroForOne then liq.toInt - liquidityNet.toInt
    else liq.toInt + liquidityNet.toInt)).map (BitVec.ofInt 128)

/-- The liquidity after a step that reached its tick. -/
def reachTick (w : Walk) (h : Hop) : Option (BitVec 128) :=
  if h.initialized then
    (db.readV3Tick keccak pool (BitVec.ofInt 32 h.nextTick)).bind fun entry =>
      crossTick zeroForOne w.liq entry.2
  else some w.liq

/-- The liquidity and the tick after a step. -/
def land (w : Walk) (h : Hop) : Option (BitVec 128 × Int) :=
  if h.newSqrtPrice = h.sqrtPriceNext then
    (reachTick keccak db pool zeroForOne w h).map fun liq =>
      (liq, if zeroForOne then h.nextTick - 1 else h.nextTick)
  else (math.getTickAtSqrtRatio h.newSqrtPrice).map (Prod.mk w.liq)

/-- The amounts after a step: what is left, and what was paid out. -/
def account (w : Walk) (h : Hop) : Option (Int × U256) := do
  let stepCostU ← checkedAdd h.amountInStep h.feeAmount
  let stepCost ← tryI256 stepCostU
  let amountRemaining ← checkedInt 256 (w.amountRemaining - stepCost)
  let amountCalculated ← checkedAdd w.amountCalculated h.amountOutStep
  some (amountRemaining, amountCalculated)

/-- One iteration of the loop. -/
def walkStep (w : Walk) : Option Walk := do
  let h ← hop math keccak db pool zeroForOne fee tickSpacing w
  let (amountRemaining, amountCalculated) ← account w h
  let (liq, tick) ← land math keccak db pool zeroForOne w h
  some ⟨h.newSqrtPrice, liq, amountRemaining, amountCalculated, tick⟩

/-- The loop, for so many iterations at most. -/
def walk : Nat → Walk → Option Walk
  | 0, w => some w
  | n + 1, w =>
    if w.amountRemaining ≠ 0 ∧ 0 < w.liq then
      (walkStep math keccak db pool zeroForOne fee tickSpacing w).bind (walk n)
    else some w

/-- The state a walk starts from. -/
def startWalk (amountIn : U256) : Option Walk := do
  let (sqrtPriceX96, currentTick) ← db.readV3Slot0 pool
  if sqrtPriceX96 = 0 then none
  else
    let liquidity ← db.readV3Liquidity pool
    let amountRemaining ← tryI256 amountIn
    some ⟨sqrtPriceX96, liquidity, amountRemaining, 0, currentTick.toInt⟩

end V3

open V3 in
/-- `get_amount_out_v3`. -/
def getAmountOutV3 (math : V3Math) (keccak : Keccak) (db : BlockStateDb) (pool : Address)
    (amountIn : U256) (zeroForOne : Bool) (fee : UInt32) (tickSpacing : Int32) : Option U256 :=
  if amountIn = 0 then some 0
  else do
    let w ← startWalk db pool amountIn
    let w ← walk math keccak db pool zeroForOne fee tickSpacing.toInt maxTickIterations w
    some w.amountCalculated

/-- The quotes the estimator is given. -/
def V3Math.quote (math : V3Math) (keccak : Keccak) (trackedPools pancakeV3Pools : Finset Address) :
    V3Quote := fun db =>
  getAmountOutV3 math keccak ⟨db, trackedPools, pancakeV3Pools⟩

end ArbBot
