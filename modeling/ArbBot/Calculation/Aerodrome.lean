import ArbBot.SwapTypes

/-!
# Aerodrome quotes

`calculation/aerodrome.rs`: volatile pools by the constant product, stable pools by the invariant
`x³y + xy³`, both on an amount the fee is already deducted from. The operators of the Rust `U256`
wrap, and the fee is subtracted from 10000 as a 64-bit word, which wraps in the release build. The
one divisor the source does not test, `reserve_in + amount_in`, is not zero for reserves of 112
bits: the fee leaves less than `2 ^ 256 / 10000` of the amount.
-/

namespace ArbBot

def oneE18 : U256 := 1000000000000000000

/-- `U256::from(10).pow(decimals)`. -/
def pow10 (decimals : UInt8) : U256 := BitVec.ofNat 256 (10 ^ decimals.toNat)

/-- `get_amount_out_volatile`. -/
def getAmountOutVolatile (amountIn reserve0 reserve1 : U256) (zeroForOne : Bool) : U256 :=
  let reserveIn := if zeroForOne then reserve0 else reserve1
  let reserveOut := if zeroForOne then reserve1 else reserve0
  if reserveIn = 0 then 0 else amountIn * reserveOut / (reserveIn + amountIn)

/-- `k_stable`. -/
def kStable (x y dec0 dec1 : U256) : U256 :=
  if dec0 = 0 ∨ dec1 = 0 then 0
  else
    let x' := x * oneE18 / dec0
    let y' := y * oneE18 / dec1
    let a := x' * y' / oneE18
    let b := x' * x' / oneE18 + y' * y' / oneE18
    a * b / oneE18

/-- `f_stable`. -/
def fStable (x0 y : U256) : U256 :=
  let a := x0 * y / oneE18
  let b := x0 * x0 / oneE18 + y * y / oneE18
  a * b / oneE18

/-- `d_stable`. -/
def dStable (x0 y : U256) : U256 :=
  let y2 := y * y / oneE18
  let x03 := (x0 * x0 / oneE18) * x0 / oneE18
  3 * x0 * y2 / oneE18 + x03

/-- `y.saturating_add(dy)`. -/
def saturatingAddU256 (y dy : U256) : U256 :=
  if y.toNat + dy.toNat < 2 ^ 256 then y + dy else BitVec.allOnes 256

/-- `y.saturating_sub(dy)`. -/
def saturatingSubU256 (y dy : U256) : U256 := if dy ≤ y then y - dy else 0

/-- The loop of `get_y_stable`, with the rounds that are left. -/
def getYStableLoop (x0 xy : U256) : Nat → U256 → U256
  | 0, _ => 0
  | rounds + 1, y =>
    let k := fStable x0 y
    let d := dStable x0 y
    if d = 0 then 0
    else if k < xy then
      let dy := (xy - k) * oneE18 / d
      if dy = 0 then
        -- `k = xy` is tested here too, and cannot hold
        getYStableLoop x0 xy rounds (saturatingAddU256 y 1)
      else getYStableLoop x0 xy rounds (saturatingAddU256 y dy)
    else
      let dy := (k - xy) * oneE18 / d
      if dy = 0 then
        if k = xy ∨ fStable x0 (saturatingSubU256 y 1) < xy then y
        else getYStableLoop x0 xy rounds (saturatingSubU256 y 1)
      else getYStableLoop x0 xy rounds (saturatingSubU256 y dy)

/-- `get_y_stable`: 255 rounds of Newton's method. -/
def getYStable (x0 xy y : U256) : U256 := getYStableLoop x0 xy 255 y

/-- `get_amount_out_stable`. -/
def getAmountOutStable (amountIn reserve0 reserve1 dec0 dec1 : U256) (zeroForOne : Bool) : U256 :=
  let xy := kStable reserve0 reserve1 dec0 dec1
  let normalise (amount dec : U256) : U256 := if dec = 0 then 0 else amount * oneE18 / dec
  let r0Norm := normalise reserve0 dec0
  let r1Norm := normalise reserve1 dec1
  let amountInNorm := normalise amountIn (if zeroForOne then dec0 else dec1)
  let reserveANorm := if zeroForOne then r0Norm else r1Norm
  let reserveBNorm := if zeroForOne then r1Norm else r0Norm
  let decOut := if zeroForOne then dec1 else dec0
  let y := getYStable (reserveANorm + amountInNorm) xy reserveBNorm
  if reserveBNorm ≤ y then 0 else (reserveBNorm - y) * decOut / oneE18

/-- `get_amount_out_aerodrome`. -/
def getAmountOutAerodrome (amountIn reserve0 reserve1 : U256)
    (token0Decimals token1Decimals : UInt8) (stable : Bool) (feeBps : UInt64)
    (zeroForOne : Bool) : U256 :=
  if amountIn = 0 ∨ reserve0 = 0 ∨ reserve1 = 0 then 0
  else
    let feeNumerator : U256 := BitVec.ofNat 256 (10000 - feeBps).toNat
    let amountInAfterFee := amountIn * feeNumerator / 10000
    if stable then
      getAmountOutStable amountInAfterFee reserve0 reserve1 (pow10 token0Decimals)
        (pow10 token1Decimals) zeroForOne
    else getAmountOutVolatile amountInAfterFee reserve0 reserve1 zeroForOne

end ArbBot
