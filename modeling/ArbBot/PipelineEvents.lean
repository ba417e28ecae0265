import ArbBot.SwapTypes

/-!
# Pipeline events

The events the workers exchange (`pipeline_events.rs`).
-/

namespace ArbBot

/-- A path the searcher found profitable. -/
structure ArbPath where
  path : SwapPath
  expectedProfit : U256
  gasEstimate : UInt64
  blockNumber : UInt64
  deriving DecidableEq

/-- A path the quoter verified. -/
structure ValidPath where
  arb : ArbPath
  amountIn : U256
  amountOut : U256
  gasCost : U256
  netProfit : U256

/-- The pools whose state changed in a block. Mempool events carry the block number 0. -/
structure PoolsTouched where
  blockNumber : UInt64
  touchedPools : List Address
  deriving DecidableEq

end ArbBot
