import ArbBot.Calculation.V2
import ArbBot.Contracts.FlashQuoter
import ArbBot.Contracts.V2ArbBot.Swaps

/-!
# A market of pairs

Surroundings in which the bot swaps through constant-product pairs and nothing else happens:
tokens move exactly the amount they are told to, and a pair that is asked to swap pays exactly the
requested output, whatever its reserves are afterwards. A pair may turn a swap down; the bot then
reverts with it.
-/

namespace ArbBot

open Lib V2ArbBot

/-- The tokens of each pair. -/
structure Pairs where
  token0 : Address → Address
  token1 : Address → Address

/-- The balances of the bot by token, and the reserves of the pairs. -/
structure Market where
  balance : Address → U256
  reserves : Address → BitVec 112 × BitVec 112

namespace Market

/-- The bot's balances after it has sent an amount. -/
def debit (m : Market) (token : Address) (amount : U256) : Market :=
  { m with balance := fun t => if t = token then m.balance t - amount else m.balance t }

/-- A pair has paid the two amounts, and only its own reserves have moved. -/
structure Paid (pairs : Pairs) (pair : Address) (amount0 amount1 : U256) (m m' : Market) :
    Prop where
  reserves : ∀ p, p ≠ pair → m'.reserves p = m.reserves p
  balance : ∀ t, (m'.balance t).toNat = (m.balance t).toNat +
    (if t = pairs.token0 pair then amount0.toNat else 0) +
    (if t = pairs.token1 pair then amount1.toNat else 0)

/-- What the contracts of the market answer the bot. -/
def answers (dep : Deployment) (pairs : Pairs) : Prog.Answers Storage Market Query Query.Answer :=
  fun s q a t =>
    match q, a with
    | .balanceOf token holder, balance =>
      holder = dep.self ∧ balance = s.2.balance token ∧ t = s
    | .transfer token recipient amount, _ =>
      recipient ≠ dep.self ∧ amount ≤ s.2.balance token ∧ t = (s.1, s.2.debit token amount)
    | .token0 pair, token => token = pairs.token0 pair ∧ t = s
    | .token1 pair, token => token = pairs.token1 pair ∧ t = s
    | .getReserves pair, reserves => reserves = s.2.reserves pair ∧ t = s
    | .pairSwap pair amount0Out amount1Out recipient _, _ =>
      recipient = dep.self ∧ t.1 = s.1 ∧ Paid pairs pair amount0Out amount1Out s.2 t.2
    | _, _ => False

/-- The market as a quote sees it. The pools that are not pairs are not part of it. -/
structure Shows (pairs : Pairs) (m : Market) (view : FlashQuoter.PoolView) (pair : Address) :
    Prop where
  token0 : view.token0 pair = some (pairs.token0 pair)
  token1 : view.token1 pair = some (pairs.token1 pair)
  reserves : view.getReserves pair = some (m.reserves pair)

/-- The quoter's formula for a step, on the reserves of its pair, sold into from the side of the
token the step sells. -/
def quote (pairs : Pairs) (m : Market) (amount : U256) (step : SwapStep) : Option U256 :=
  let reserves := m.reserves step.poolAddress
  let zeroForOne := decide (step.tokenIn = pairs.token0 step.poolAddress)
  FlashQuoter.constantProduct amount
    ((if zeroForOne then reserves.1 else reserves.2).setWidth 256)
    ((if zeroForOne then reserves.2 else reserves.1).setWidth 256) step.fee

/-- The estimator's quote of a step, in the direction of the addresses. -/
def stepOut (m : Market) (amount : U256) (step : SwapStep) : U256 :=
  let reserves := m.reserves step.poolAddress
  let zeroForOne := decide (step.tokenIn < step.tokenOut)
  getAmountOutV2 amount ((if zeroForOne then reserves.1 else reserves.2).setWidth 256)
    ((if zeroForOne then reserves.2 else reserves.1).setWidth 256) (10000 - step.fee.toUInt64)

/-- The amount after the steps, one after the other. -/
def pathOut (m : Market) (steps : List SwapStep) (amountIn : U256) : U256 :=
  steps.foldl m.stepOut amountIn

end Market

/-- A step that the contracts take for one through a constant-product pair, between the two tokens
of the pair. -/
structure PairStep (pairs : Pairs) (step : SwapStep) : Prop where
  version : step.protocol.toQuoterVersion = 0
  ne : pairs.token0 step.poolAddress ≠ pairs.token1 step.poolAddress
  tokens :
    (step.tokenIn = pairs.token0 step.poolAddress ∧
      step.tokenOut = pairs.token1 step.poolAddress) ∨
    (step.tokenIn = pairs.token1 step.poolAddress ∧ step.tokenOut = pairs.token0 step.poolAddress)

/-- Such a step where the tokens are sorted, both reserves are positive and the fee leaves
something to swap. -/
structure ConstantProductStep (pairs : Pairs) (m : Market) (step : SwapStep) : Prop extends
    PairStep pairs step where
  sorted : pairs.token0 step.poolAddress < pairs.token1 step.poolAddress
  reserve0 : (m.reserves step.poolAddress).1 ≠ 0
  reserve1 : (m.reserves step.poolAddress).2 ≠ 0
  fee : step.fee.toNat < 10000

/-- A path of such steps through different pairs, each selling what the one before bought. -/
structure ConstantProductPath (pairs : Pairs) (m : Market) (steps : List SwapStep) : Prop where
  step : ∀ step ∈ steps, ConstantProductStep pairs m step
  distinct : (steps.map (·.poolAddress)).Nodup
  chained : steps.IsChain fun a b => a.tokenOut = b.tokenIn

/-- The parameters of the contract for a path, as the quoter takes them. -/
def QuoterParams.toSwapParams (params : QuoterParams) (flashLoanProvider : UInt8) : SwapParams where
  pools := params.pools
  poolVersions := params.poolVersions
  fees := params.fees
  amountIn := params.amountIn
  startToken := params.startToken
  flashLoanProvider := flashLoanProvider

end ArbBot
