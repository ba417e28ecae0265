import Mathlib.Algebra.Group.Nat.Defs
import Mathlib.Data.List.Basic

/-!
# Swap paths

The path types every stage of the pipeline shares (`swap_types.rs`) and the pool record the
loader produces (`pool_loader.rs`). A path carries a hash of its steps, which the builder and the
rate cache use as its identity. The standard library leaves the algorithm of `DefaultHasher`
open, so the hash is a parameter: any function from step lists to 64-bit words.
-/

namespace ArbBot

/-- A 20-byte account address; the order of addresses is the numeric one. -/
abbrev Address := BitVec 160

/-- A 256-bit unsigned word. Its ring operations wrap, as those of the Rust `U256` do. -/
abbrev U256 := BitVec 256

/-- The pool types the on-chain contract supports. -/
inductive PoolProtocol where
  | uniswapV2 | sushiSwapV2 | pancakeSwapV2 | baseSwapV2 | alienBaseV2
  | aerodrome
  | uniswapV3 | sushiSwapV3 | baseSwapV3 | pancakeSwapV3 | alienBaseV3 | slipstream
  | algebraV1
  | balancerV2 | curveTwoCrypto | curveTriCrypto | maverickV2
  deriving DecidableEq, Repr

namespace PoolProtocol

/-- Concentrated-liquidity pools. -/
def isV3 : PoolProtocol → Bool
  | uniswapV3 | sushiSwapV3 | baseSwapV3 | pancakeSwapV3 | alienBaseV3 | slipstream
  | algebraV1 => true
  | _ => false

/-- Constant-product pools. -/
def isV2 : PoolProtocol → Bool
  | uniswapV2 | sushiSwapV2 | pancakeSwapV2 | baseSwapV2 | alienBaseV2 => true
  | _ => false

/-- The protocols that are priced from two reserves. -/
def isReserveBased (protocol : PoolProtocol) : Bool := protocol.isV2 || protocol == .aerodrome

/-- The protocols whose rate is a neutral pass-through in the pre-filter. -/
def isExotic : PoolProtocol → Bool
  | balancerV2 | curveTwoCrypto | curveTriCrypto | maverickV2 => true
  | _ => false

/-- The fee numerator out of 10000 a protocol charges by default. -/
def v2FeeFactor : PoolProtocol → UInt64
  | uniswapV2 | sushiSwapV2 => 9970
  | pancakeSwapV2 | baseSwapV2 => 9975
  | alienBaseV2 => 9984
  | _ => 9970

/-- The `poolVersions` byte of the contracts: 0 constant product, 1 V3 callback, 2 Algebra
callback. No protocol maps to 3, the stable invariant. -/
def toQuoterVersion : PoolProtocol → UInt8
  | uniswapV3 | sushiSwapV3 | baseSwapV3 | pancakeSwapV3 | alienBaseV3 | slipstream => 1
  | algebraV1 => 2
  | _ => 0

end PoolProtocol

/-- A pool record as the loader reads it. -/
structure RawPool where
  address : Address
  token0 : Address
  token1 : Address
  decimals0 : UInt8
  decimals1 : UInt8
  fee : UInt32
  tickSpacing : Int32
  protocol : PoolProtocol
  deriving DecidableEq

/-- A single swap within a path. -/
structure SwapStep where
  poolAddress : Address
  tokenIn : Address
  tokenOut : Address
  protocol : PoolProtocol
  fee : UInt32
  deriving DecidableEq

/-- The step made from a pool, in one direction. -/
def RawPool.toStep (pool : RawPool) (zeroForOne : Bool) : SwapStep where
  poolAddress := pool.address
  tokenIn := if zeroForOne then pool.token0 else pool.token1
  tokenOut := if zeroForOne then pool.token1 else pool.token0
  protocol := pool.protocol
  fee := pool.fee

/-- What `DefaultHasher` computes from the steps of a path. -/
abbrev StepHasher := List SwapStep → UInt64

/-- A multi-hop path with its hash. -/
structure SwapPath where
  steps : List SwapStep
  hash : UInt64
  deriving DecidableEq

/-- `SwapPath::new`: the steps and their hash. -/
def SwapPath.new (hasher : StepHasher) (steps : List SwapStep) : SwapPath :=
  ⟨steps, hasher steps⟩

@[simp] theorem SwapPath.new_steps (hasher : StepHasher) (steps : List SwapStep) :
    (SwapPath.new hasher steps).steps = steps := rfl

@[simp] theorem SwapPath.new_hash (hasher : StepHasher) (steps : List SwapStep) :
    (SwapPath.new hasher steps).hash = hasher steps := rfl

/-- The parameters of a swap path as the quoter contract takes them. -/
structure QuoterParams where
  pools : List Address
  poolVersions : List UInt8
  fees : List UInt32
  amountIn : U256
  startToken : Address
  deriving DecidableEq

/-- `to_quoter_params`: one entry per step; the start token is what the first step sells. -/
def SwapPath.toQuoterParams (path : SwapPath) (amountIn : U256) : QuoterParams where
  pools := path.steps.map (·.poolAddress)
  poolVersions := path.steps.map (·.protocol.toQuoterVersion)
  fees := path.steps.map (·.fee)
  amountIn := amountIn
  startToken := (path.steps.head?.map (·.tokenIn)).getD 0

end ArbBot
