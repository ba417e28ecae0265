import Mathlib.Algebra.Group.Nat.Defs

/-!
# One step of an exact-input swap

`SqrtPriceMath` of Uniswap V3, for a step that stays within one range of liquidity: the price
moves by the input after the fee, rounded in favour of the pool, and the output is the amount
between the two prices, rounded down. The words are natural numbers here; only the branch that
depends on a 256-bit word is kept, and a price that leaves its 160 bits is not refused. This is the
meaning the quoter's fallback is compared with; it is not part of the repository.
-/

namespace ArbBot.Uniswap

/-- The quotient, rounded up. -/
def divRoundingUp (a b : Nat) : Nat := if b ∣ a then a / b else a / b + 1

/-- `getNextSqrtPriceFromAmount0RoundingUp`, for an amount that is added. -/
def getNextSqrtPriceFromAmount0RoundingUp (sqrtPX96 liquidity amount : Nat) : Nat :=
  let numerator1 := liquidity * 2 ^ 96
  let product := amount * sqrtPX96
  if product < 2 ^ 256 ∧ numerator1 + product < 2 ^ 256 then
    divRoundingUp (numerator1 * sqrtPX96) (numerator1 + product)
  else divRoundingUp numerator1 (numerator1 / sqrtPX96 + amount)

/-- `getNextSqrtPriceFromAmount1RoundingDown`, for an amount that is added. -/
def getNextSqrtPriceFromAmount1RoundingDown (sqrtPX96 liquidity amount : Nat) : Nat :=
  sqrtPX96 + amount * 2 ^ 96 / liquidity

/-- `getNextSqrtPriceFromInput`. -/
def getNextSqrtPriceFromInput (sqrtPX96 liquidity amountIn : Nat) (zeroForOne : Bool) : Nat :=
  if zeroForOne then getNextSqrtPriceFromAmount0RoundingUp sqrtPX96 liquidity amountIn
  else getNextSqrtPriceFromAmount1RoundingDown sqrtPX96 liquidity amountIn

/-- `getAmount0Delta`, rounded down. -/
def getAmount0Delta (sqrtRatioAX96 sqrtRatioBX96 liquidity : Nat) : Nat :=
  liquidity * 2 ^ 96 * (sqrtRatioBX96 - sqrtRatioAX96) / sqrtRatioBX96 / sqrtRatioAX96

/-- `getAmount1Delta`, rounded down. -/
def getAmount1Delta (sqrtRatioAX96 sqrtRatioBX96 liquidity : Nat) : Nat :=
  liquidity * (sqrtRatioBX96 - sqrtRatioAX96) / 2 ^ 96

/-- The input after the fee. -/
def amountRemainingLessFee (amountIn feePips : Nat) : Nat := amountIn * (1000000 - feePips) / 1000000

/-- The output of the step. -/
def exactInputStep (sqrtPX96 liquidity amountIn feePips : Nat) (zeroForOne : Bool) : Nat :=
  let next := getNextSqrtPriceFromInput sqrtPX96 liquidity (amountRemainingLessFee amountIn feePips)
    zeroForOne
  if zeroForOne then getAmount1Delta next sqrtPX96 liquidity
  else getAmount0Delta sqrtPX96 next liquidity

end ArbBot.Uniswap
