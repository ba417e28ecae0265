import ArbBot.Contracts.FullMath
import ArbBot.Lib.Bytes

/-!
# The quoter contract

`FlashQuoter.sol`. A quote reads the state of the pools and leaves no trace: a pool's `swap` is
tried, and the quoter's callback makes the attempt revert, so what a quote depends on is the view
the pools present. Arithmetic is checked; `none` is a revert of the whole quote.

`getAmountOut` and `quoteArbitrage` run the same loop; the model of the loop keeps the current
token and amount, and `quoteHops n` is what they are before hop `n`.
-/

namespace ArbBot.FlashQuoter

open Lib

/-- How a tried `swap` ended. -/
inductive SwapOutcome where
  | returned
  | reverted (reason : Bytes)
  deriving DecidableEq

/-- What the pools answer. -/
structure PoolView where
  token0 : Address → Option Address
  token1 : Address → Option Address
  getReserves : Address → Option (BitVec 112 × BitVec 112)
  slot0 : Address → Option (BitVec 160)
  liquidity : Address → Option (BitVec 128)
  /-- `swap(quoter, zeroForOne, amountIn, limit, "")`, for V3 and Algebra pools alike. -/
  swap : Address → Bool → U256 → BitVec 160 → SwapOutcome

def minSqrtRatio : BitVec 160 := 4295128739

def maxSqrtRatio : BitVec 160 := 1461446703485210103287273052203988822378723970342

/-- The arithmetic of `_quoteV2`. -/
def constantProduct (amountIn reserveIn reserveOut : U256) (feeBps : UInt32) : Option U256 := do
  let factor ← checkedSub 10000 (BitVec.ofNat 256 feeBps.toNat)
  let numerator ← checkedMul amountIn factor
  let scaled ← checkedMul reserveIn 10000
  let denominator ← checkedAdd scaled numerator
  let product ← checkedMul numerator reserveOut
  checkedDiv product denominator

/-- `_quoteV2`. -/
def quoteV2 (view : PoolView) (pool : Address) (amountIn : U256) (zeroForOne : Bool)
    (feeBps : UInt32) : Option U256 := do
  let (r0, r1) ← view.getReserves pool
  let reserveIn : U256 := (if zeroForOne then r0 else r1).setWidth 256
  let reserveOut : U256 := (if zeroForOne then r1 else r0).setWidth 256
  constantProduct amountIn reserveIn reserveOut feeBps

/-- `_decodeAmount`: only a reason of exactly one word is an amount. -/
def decodeAmount (reason : Bytes) : U256 :=
  if reason.length = 32 then reason.wordAt 0 else 0

/-- `_quoteV3Math`. -/
def quoteV3Math (view : PoolView) (pool : Address) (amountIn : U256) (zeroForOne : Bool)
    (fee : UInt32) : Option U256 := do
  let sqrtP : U256 := (← view.slot0 pool).setWidth 256
  let liq : U256 := (← view.liquidity pool).setWidth 256
  if liq = 0 ∨ sqrtP = 0 ∨ amountIn = 0 then return 0
  if 1000000 ≤ fee.toNat then return 0
  let amountAfterFee := (← checkedMul amountIn (BitVec.ofNat 256 (1000000 - fee.toNat))) / 1000000
  if zeroForOne then
    let numerator1 := liq <<< 96
    let product := mulDiv amountAfterFee sqrtP 1
    if product = 0 ∧ 0 < amountAfterFee ∧ 0 < sqrtP then return 0
    let denominator ← checkedAdd numerator1 product
    if denominator < numerator1 then return 0
    let sqrtPNew := mulDiv numerator1 sqrtP denominator
    if sqrtP ≤ sqrtPNew ∨ sqrtPNew < minSqrtRatio.setWidth 256 then return 0
    return (← checkedMul liq (sqrtP - sqrtPNew)) >>> 96
  else
    let deltaSqrtP := (amountAfterFee <<< 96) / liq
    if deltaSqrtP = 0 then return 0
    let sqrtPNew ← checkedAdd sqrtP deltaSqrtP
    if sqrtPNew ≤ sqrtP ∨ maxSqrtRatio.setWidth 256 < sqrtPNew then return 0
    let step1 := (liq <<< 96) / sqrtP
    return (← checkedMul step1 (sqrtPNew - sqrtP)) / sqrtPNew

/-- `_quoteV3` and `_quoteAlgebra`: the amount the callback reverted with, else the analytical
quote. A swap that returns makes the quote revert. -/
def quoteV3 (view : PoolView) (pool : Address) (amountIn : U256) (zeroForOne : Bool)
    (fee : UInt32) : Option U256 :=
  let limit := if zeroForOne then minSqrtRatio + 1 else maxSqrtRatio - 1
  match view.swap pool zeroForOne amountIn limit with
  | .returned => none
  | .reverted reason =>
    if 0 < decodeAmount reason then some (decodeAmount reason)
    else quoteV3Math view pool amountIn zeroForOne fee

/-- Hop `i` of the loop: the next token and amount. -/
def quoteHop (view : PoolView) (params : QuoterParams) (i : Nat) (cur : Address × U256) :
    Option (Address × U256) := do
  let pool ← params.pools[i]?
  let version ← params.poolVersions[i]?
  let token0 ← view.token0 pool
  let token1 ← view.token1 pool
  let zeroForOne := decide (cur.1 = token0)
  let fee ← params.fees[i]?
  let amount ← (if version = 0 ∨ version = 3 then quoteV2 view pool cur.2 zeroForOne fee
    else quoteV3 view pool cur.2 zeroForOne fee : Option U256)
  some (if zeroForOne then token1 else token0, amount)

/-- The current token and amount before hop `n`. -/
def quoteHops (view : PoolView) (params : QuoterParams) : Nat → Option (Address × U256)
  | 0 => some (params.startToken, params.amountIn)
  | n + 1 => do quoteHop view params n (← quoteHops view params n)

/-- `getAmountOut`. -/
def getAmountOut (view : PoolView) (params : QuoterParams) : Option U256 :=
  (quoteHops view params params.pools.length).map (·.2)

/-- `quoteArbitrage`: the amount before each hop and after the last. -/
def quoteArbitrage (view : PoolView) (params : QuoterParams) : Option (List U256) :=
  (List.range (params.pools.length + 1)).mapM fun n => (quoteHops view params n).map (·.2)

end ArbBot.FlashQuoter
