import ArbBot.Contracts.Params
import ArbBot.Lib.Prog

/-!
# External calls of the bot

Every call `V2ArbBot` makes to another contract, with the arguments that matter to anybody and the
type of what it returns. A high-level call reverts when the callee does or when what it returns
does not decode, so an answer is always well typed. `safeTransfer` and `safeApprove` of the token
library are the plain calls with a check: they revert when the token reports failure.
-/

namespace ArbBot.V2ArbBot

open Lib (Bytes)

/-- A call to another contract; the callee comes first. -/
inductive Query where
  -- ERC-20
  | balanceOf (token holder : Address)
  | decimals (token : Address)
  | allowance (token holder spender : Address)
  | transfer (token recipient : Address) (amount : U256)
  | approve (token spender : Address) (amount : U256)
  | deposit (weth : Address) (value : U256)
  -- pools
  | token0 (pool : Address)
  | token1 (pool : Address)
  | getReserves (pair : Address)
  | getTokenX (pair : Address)
  | pairSwap (pair : Address) (amount0Out amount1Out : U256) (recipient : Address) (data : Bytes)
  | lbSwap (pair : Address) (swapForY : Bool) (recipient : Address)
  | poolSwap (pool recipient : Address) (zeroForOne : Bool) (amount : U256) (limit : BitVec 160)
      (data : Bytes)
  | poolFlash (pool recipient : Address) (amount0 amount1 : U256) (data : Bytes)
  -- vaults and lenders
  | vaultFlashLoan (vault recipient : Address) (tokens : List Address) (amounts : List U256)
      (data : Bytes)
  | vaultSwap (vault : Address) (poolId : U256) (assetIn assetOut : Address)
      (amount deadline : U256)
  | flashLoanSimple (pool receiver asset : Address) (amount : U256) (data : Bytes)
  | liquidationCall (pool collateralAsset debtAsset user : Address) (debtToCover : U256)
  | morphoFlashLoan (morpho token : Address) (assets : U256) (data : Bytes)
  | morphoLiquidate (morpho : Address) (market : MarketParams) (borrower : Address)
      (repaidShares : U256)
  deriving DecidableEq

namespace Query

/-- What the call returns. The two amounts of a pool swap are `int256` words. -/
abbrev Answer : Query → Type
  | balanceOf .. | allowance .. | vaultSwap .. => U256
  | decimals .. => UInt8
  | token0 .. | token1 .. | getTokenX .. => Address
  | getReserves .. => BitVec 112 × BitVec 112
  | poolSwap .. => U256 × U256
  | transfer .. | approve .. | deposit .. | pairSwap .. | lbSwap .. | poolFlash ..
  | vaultFlashLoan .. | flashLoanSimple .. | liquidationCall .. | morphoFlashLoan ..
  | morphoLiquidate .. => Unit

/-- The contract that is called. -/
def callee : Query → Address
  | balanceOf a _ | decimals a | allowance a _ _ | transfer a _ _ | approve a _ _ | deposit a _
  | token0 a | token1 a | getReserves a | getTokenX a | pairSwap a _ _ _ _ | lbSwap a _ _
  | poolSwap a _ _ _ _ _ | poolFlash a _ _ _ _ | vaultFlashLoan a _ _ _ _
  | vaultSwap a _ _ _ _ _ | flashLoanSimple a _ _ _ _ | liquidationCall a _ _ _ _
  | morphoFlashLoan a _ _ _ | morphoLiquidate a _ _ _ => a

/-- A call the compiler makes as a static call, which changes no state. -/
def isView : Query → Bool
  | balanceOf .. | decimals .. | allowance .. | token0 .. | token1 .. | getReserves ..
  | getTokenX .. => true
  | _ => false

end Query

end ArbBot.V2ArbBot
