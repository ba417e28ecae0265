import ArbBot.SwapTypes

/-!
# Constant-product quotes

`calculation/v2.rs`. The operators of the Rust `U256` wrap, and so do these.
-/

namespace ArbBot

/-- `get_amount_out_v2`. -/
def getAmountOutV2 (amountIn reserveIn reserveOut : U256) (feeFactor : UInt64) : U256 :=
  if amountIn = 0 ∨ reserveIn = 0 ∨ reserveOut = 0 then 0
  else
    let amountInWithFee := amountIn * BitVec.ofNat 256 feeFactor.toNat
    let numerator := amountInWithFee * reserveOut
    let denominator := reserveIn * 10000 + amountInWithFee
    if denominator = 0 then 0 else numerator / denominator

/-- `get_amount_in_v2`: the greatest word where no input pays for the output. -/
def getAmountInV2 (amountOut reserveIn reserveOut : U256) (feeFactor : UInt64) : U256 :=
  if amountOut = 0 ∨ reserveIn = 0 ∨ reserveOut ≤ amountOut then BitVec.allOnes 256
  else
    let numerator := reserveIn * amountOut * 10000
    let denominator := (reserveOut - amountOut) * BitVec.ofNat 256 feeFactor.toNat
    if denominator = 0 then BitVec.allOnes 256 else numerator / denominator + 1

/-! ## Square roots -/

/-- The loop of `isqrt`, from the two iterates on. A division by zero panics. -/
def isqrtLoop (n x y : U256) : Option U256 :=
  if _ : y < x then
    if y = 0 then none else isqrtLoop n y ((y + n / y) >>> 1)
  else some x
termination_by x.toNat
decreasing_by exact BitVec.lt_def.mp ‹_›

/-- `isqrt`. -/
def isqrt (n : U256) : Option U256 := if n = 0 then some 0 else isqrtLoop n n ((n + 1) >>> 1)

/-- `optimal_v2_input`. -/
def optimalV2Input (reserveIn reserveOut : U256) (feeFactor : UInt64) : Option U256 := do
  let product := reserveIn * reserveOut * BitVec.ofNat 256 feeFactor.toNat
  let sqrtProd ← isqrt (product / 10000)
  some (if reserveIn < sqrtProd then sqrtProd - reserveIn else 0)

end ArbBot
