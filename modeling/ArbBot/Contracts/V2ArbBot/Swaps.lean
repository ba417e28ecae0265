import ArbBot.Contracts.Calls
import ArbBot.Contracts.FullMath

/-!
# The swaps of the bot

The storage of `V2ArbBot.sol` and its internal swap functions, as programs that call out. The
pending slots name the pool a swap callback may come from; they are set before a pool is called
and cleared after it. Arithmetic is checked.

A loop is the state after its first `n` rounds; `swapHops n` holds the current token and amount
before hop `n`.
-/

namespace ArbBot.V2ArbBot

open Lib
open Lib.Prog (ofOption require update)

/-- The immutables, and the address the contract lives at. -/
structure Deployment where
  self : Address
  owner : Address
  mainCurrency : Address
  deriving DecidableEq

/-- The message and block values a function reads. -/
structure Msg where
  sender : Address
  value : U256
  timestamp : U256
  deriving DecidableEq

structure Storage where
  allowedFlashAssets : Address → Bool
  aavePool : Address
  uniV3FlashPool : Address
  pancakeV3FlashPool : Address
  pendingAlgebraPool : Address
  pendingV3Pool : Address
  liquidationPending : Bool
  liquidationVault : Address
  morphoLiquidationPending : Bool
  pendingSwapVault : Address
  aaveLiquidationPending : Bool
  pendingAaveLiqSwapVault : Address
  morphoBlueLiqPending : Bool
  morphoBlueAddr : Address

/-- The storage after deployment. -/
def Storage.initial : Storage where
  allowedFlashAssets := fun _ => false
  aavePool := 0
  uniV3FlashPool := 0
  pancakeV3FlashPool := 0
  pendingAlgebraPool := 0
  pendingV3Pool := 0
  liquidationPending := false
  liquidationVault := 0
  morphoLiquidationPending := false
  pendingSwapVault := 0
  aaveLiquidationPending := false
  pendingAaveLiqSwapVault := 0
  morphoBlueLiqPending := false
  morphoBlueAddr := 0

/-- A body of the contract. -/
abbrev Bot (α : Type) : Type := Prog Storage Query Query.Answer α

abbrev call (q : Query) : Bot q.Answer := Prog.call q

def add (a b : U256) : Bot U256 := ofOption (checkedAdd a b)

def sub (a b : U256) : Bot U256 := ofOption (checkedSub a b)

/-! ## Constant-product pairs -/

/-- The arithmetic of `_swapV2Pair`. -/
def constantProduct (amountIn reserveIn reserveOut feeBps : U256) : Option U256 := do
  let base ← checkedSub 10000 feeBps
  let amountInWithFee ← checkedMul amountIn base
  let numerator ← checkedMul amountInWithFee reserveOut
  let scaled ← checkedMul reserveIn 10000
  let denominator ← checkedAdd scaled amountInWithFee
  checkedDiv numerator denominator

/-- `pair.swap`, with the output on the side that is not sold. -/
def callPairSwap (dep : Deployment) (pairAddr : Address) (zeroForOne : Bool) (amountOut : U256) :
    Bot Unit :=
  if zeroForOne then call (.pairSwap pairAddr 0 amountOut dep.self [])
  else call (.pairSwap pairAddr amountOut 0 dep.self [])

/-- `_swapV2Pair`. -/
def swapV2Pair (dep : Deployment) (pairAddr tokenIn tokenOut : Address) (amountIn feeBps : U256) :
    Bot U256 := do
  let reserves ← call (.getReserves pairAddr)
  let token0 ← call (.token0 pairAddr)
  let zeroForOne := decide (tokenIn = token0)
  let reserveIn : U256 := (if zeroForOne then reserves.1 else reserves.2).setWidth 256
  let reserveOut : U256 := (if zeroForOne then reserves.2 else reserves.1).setWidth 256
  let amountExpected ← ofOption (constantProduct amountIn reserveIn reserveOut feeBps)
  let balanceBefore ← call (.balanceOf tokenOut dep.self)
  call (.transfer tokenIn pairAddr amountIn)
  callPairSwap dep pairAddr zeroForOne amountExpected
  let balance ← call (.balanceOf tokenOut dep.self)
  sub balance balanceBefore

/-! ## Stable pairs -/

def e18 : U256 := 1000000000000000000

/-- `x * y / 1e18` times the sum of the squares of `x` and `y` over `1e18`, the invariant that
`_getAmountOutStable` computes for the reserves and in each round. -/
def stableInvariant (x y : U256) : Option U256 := do
  let product ← mulDiv x y e18
  let x2 ← mulDiv x x e18
  let y2 ← mulDiv y y e18
  mulDiv product (← checkedAdd x2 y2) e18

/-- The derivative of the invariant in `y`. -/
def stableDerivative (x y : U256) : Option U256 := do
  let x2 ← mulDiv x x e18
  let y2 ← mulDiv (← checkedMul 3 y) y e18
  mulDiv x (← checkedAdd x2 y2) e18

/-- The loop of `_getAmountOutStable`, with the rounds that are left. -/
def stableLoop (x1 k : U256) : Nat → U256 → Option U256
  | 0, y => some y
  | rounds + 1, y => do
    let f ← stableInvariant x1 y
    let distance := if k ≤ f then f - k else k - f
    let fDer ← stableDerivative x1 y
    if fDer = 0 then some y
    else
      let step ← mulDiv distance e18 fDer
      if step = 0 then some y
      else if k ≤ f then stableLoop x1 k rounds (if step < y then y - step else 0)
      else stableLoop x1 k rounds (← checkedAdd y step)

/-- `10 ** (18 - decimals)`. -/
def stableScale (decimals : UInt8) : Option U256 :=
  if decimals.toNat ≤ 18 then some (BitVec.ofNat 256 (10 ^ (18 - decimals.toNat))) else none

/-- `_getAmountOutStable`. -/
def getAmountOutStable (amountIn reserveIn reserveOut : U256) (decimalsIn decimalsOut : UInt8) :
    Option U256 := do
  let scaleIn ← stableScale decimalsIn
  let scaleOut ← stableScale decimalsOut
  let x0 ← checkedMul reserveIn scaleIn
  let y0 ← checkedMul reserveOut scaleOut
  let dx ← checkedMul amountIn scaleIn
  let x1 ← checkedAdd x0 dx
  let k ← stableInvariant x0 y0
  let y ← stableLoop x1 k 255 y0
  some ((if y < y0 then y0 - y else 0) / scaleOut)

/-- `amountIn * (10000 - feeBps) / 10000`. -/
def amountInWithFee (amountIn feeBps : U256) : Option U256 := do
  let factor ← checkedSub 10000 feeBps
  return (← checkedMul amountIn factor) / 10000

/-- `_swapSolidlyStablePair`. It returns what it asks the pair for, not what it receives. -/
def swapSolidlyStablePair (dep : Deployment) (pairAddr tokenIn tokenOut : Address)
    (amountIn feeBps : U256) : Bot U256 := do
  let reserves ← call (.getReserves pairAddr)
  let token0 ← call (.token0 pairAddr)
  let zeroForOne := decide (tokenIn = token0)
  let reserveIn : U256 := (if zeroForOne then reserves.1 else reserves.2).setWidth 256
  let reserveOut : U256 := (if zeroForOne then reserves.2 else reserves.1).setWidth 256
  let dIn ← call (.decimals tokenIn)
  let dOut ← call (.decimals tokenOut)
  let afterFee ← ofOption (amountInWithFee amountIn feeBps)
  let amountOut ← ofOption (getAmountOutStable afterFee reserveIn reserveOut dIn dOut)
  require (0 < amountOut)
  call (.transfer tokenIn pairAddr amountIn)
  callPairSwap dep pairAddr zeroForOne amountOut
  pure amountOut

/-! ## Concentrated liquidity -/

/-- The price limit next to the end of the range. -/
def sqrtPriceLimit (zeroForOne : Bool) : BitVec 160 :=
  if zeroForOne then 4295128740 else 1461446703485210103287273052203988822378723970341

/-- `_swapAlgebraPool` and `_swapUniswapV3Pool`, which arm different slots. -/
def swapPool (dep : Deployment) (arm : Address → Storage → Storage)
    (poolAddr tokenIn tokenOut : Address) (amountIn : U256) : Bot U256 := do
  let balanceBefore ← call (.balanceOf tokenOut dep.self)
  update (arm poolAddr)
  let token0 ← call (.token0 poolAddr)
  let zeroForOne := decide (tokenIn = token0)
  let _ ← call (.poolSwap poolAddr dep.self zeroForOne amountIn (sqrtPriceLimit zeroForOne)
    (Abi.encodeTokenAmount tokenIn amountIn))
  update (arm 0)
  let balance ← call (.balanceOf tokenOut dep.self)
  sub balance balanceBefore

def swapAlgebraPool (dep : Deployment) : Address → Address → Address → U256 → Bot U256 :=
  swapPool dep fun pool st => { st with pendingAlgebraPool := pool }

def swapUniswapV3Pool (dep : Deployment) : Address → Address → Address → U256 → Bot U256 :=
  swapPool dep fun pool st => { st with pendingV3Pool := pool }

/-! ## Liquidity Book and Balancer -/

/-- `_swapLFJPair`. -/
def swapLFJPair (dep : Deployment) (pairAddr tokenIn tokenOut : Address) (amountIn : U256) :
    Bot U256 := do
  let tokenX ← call (.getTokenX pairAddr)
  let balanceBefore ← call (.balanceOf tokenOut dep.self)
  call (.transfer tokenIn pairAddr amountIn)
  call (.lbSwap pairAddr (decide (tokenIn = tokenX)) dep.self)
  let balance ← call (.balanceOf tokenOut dep.self)
  sub balance balanceBefore

/-- `safeApprove`: an allowance is only set from or to zero. -/
def safeApprove (dep : Deployment) (token spender : Address) (amount : U256) : Bot Unit := do
  let current ← (if amount = 0 then pure 0 else call (.allowance token dep.self spender) : Bot U256)
  require (current = 0)
  call (.approve token spender amount)

/-- `safeApprove` to zero and then to the amount. -/
def resetApprove (dep : Deployment) (token spender : Address) (amount : U256) : Bot Unit := do
  safeApprove dep token spender 0
  safeApprove dep token spender amount

/-- `_swapBalancer`. -/
def swapBalancer (dep : Deployment) (msg : Msg) (vault : Address) (poolId : U256)
    (tokenIn tokenOut : Address) (amountIn : U256) : Bot U256 := do
  resetApprove dep tokenIn vault amountIn
  let deadline ← add msg.timestamp 300
  call (.vaultSwap vault poolId tokenIn tokenOut amountIn deadline)

/-! ## Paths -/

/-- The dispatch on the pool version. -/
def swapByVersion (dep : Deployment) (version : UInt8) (pool tokenIn tokenOut : Address)
    (amountIn feeBps : U256) : Bot U256 :=
  if version = 0 then swapV2Pair dep pool tokenIn tokenOut amountIn feeBps
  else if version = 1 then swapUniswapV3Pool dep pool tokenIn tokenOut amountIn
  else if version = 2 then swapAlgebraPool dep pool tokenIn tokenOut amountIn
  else if version = 3 then swapSolidlyStablePair dep pool tokenIn tokenOut amountIn feeBps
  else .revert

/-- Hop `i` of `_executeSwapPath`: the next token and amount. -/
def swapHop (dep : Deployment) (arb : SwapParams) (i : Nat) (cur : Address × U256) :
    Bot (Address × U256) := do
  let pool ← ofOption arb.pools[i]?
  let version ← ofOption arb.poolVersions[i]?
  let feeBps : U256 := BitVec.ofNat 256 (arb.fees[i]?.getD 25).toNat
  let t0 ← call (.token0 pool)
  let nextToken ← (if cur.1 = t0 then call (.token1 pool) else pure t0 : Bot Address)
  let amount ← swapByVersion dep version pool cur.1 nextToken cur.2 feeBps
  pure (nextToken, amount)

/-- The current token and amount before hop `n`. -/
def swapHops (dep : Deployment) (arb : SwapParams) (startToken : Address) (startAmt : U256) :
    Nat → Bot (Address × U256)
  | 0 => pure (startToken, startAmt)
  | n + 1 => do swapHop dep arb n (← swapHops dep arb startToken startAmt n)

/-- `_executeSwapPath`. -/
def executeSwapPath (dep : Deployment) (arb : SwapParams) (startToken : Address)
    (startAmt : U256) : Bot U256 := do
  let cur ← swapHops dep arb startToken startAmt arb.pools.length
  pure cur.2

/-- A swap of `_execute`, by the pool type in the data. -/
def packedHop (dep : Deployment) (data : Bytes) (i : Nat) (amountIn : U256) : Bot U256 := do
  let offset := 0x80 + 0xa0 * i
  let router := U256.toAddress (data.wordAt offset)
  let tokenIn := U256.toAddress (data.wordAt (offset + 0x20))
  let tokenOut := U256.toAddress (data.wordAt (offset + 0x40))
  let poolType := data.wordAt (offset + 0x60)
  let feeBps := data.wordAt (offset + 0x80)
  if poolType = 1 then swapAlgebraPool dep router tokenIn tokenOut amountIn
  else if poolType = 2 then swapSolidlyStablePair dep router tokenIn tokenOut amountIn feeBps
  else if poolType = 3 then swapUniswapV3Pool dep router tokenIn tokenOut amountIn
  else if poolType = 4 then swapLFJPair dep router tokenIn tokenOut amountIn
  else swapV2Pair dep router tokenIn tokenOut amountIn feeBps

/-- The amount before packed hop `n`. -/
def packedHops (dep : Deployment) (data : Bytes) (amountIn : U256) : Nat → Bot U256
  | 0 => pure amountIn
  | n + 1 => do packedHop dep data n (← packedHops dep data amountIn n)

/-- The number of hops, which is kept in eight bits. The subtraction wraps on data shorter than
the header, whose first hop then is the zero address. -/
def packedHopCount (data : Bytes) : Nat :=
  let len : U256 := BitVec.ofNat 256 data.length
  ((len - 0x80) / 0xa0).toNat % 256

/-- `_execute`. -/
def execute (dep : Deployment) (data : Bytes) : Bot U256 := do
  let amountOut ← packedHops dep data (data.wordAt 0) (packedHopCount data)
  let minOut := data.wordAt 0x60
  require (0 < minOut → minOut ≤ amountOut)
  pure amountOut

end ArbBot.V2ArbBot
