import ArbBot.Lib.ExactArith
import ArbBot.SwapTypes

/-!
# Weighted pools

`calculation/balancer.rs`: the amount out of a weighted pool, and the `LogExpMath` it takes powers
with. Words are natural numbers and signed words integers; what becomes of an exact result is up to
the arithmetic `ar`, which wraps in the release build. A division by zero, which panics, gives no
value, and so does a recursion that goes deeper than allowed.

Statements that the source repeats for one constant after the other are loops over the constants.
-/

namespace ArbBot

open Lib

namespace Balancer

variable (ar : Arith)

/-- `ONE_18`. -/
def one18 : Nat := 1000000000000000000

/-! ## Fixed-point numbers -/

/-- `scale`. -/
def scale (value : Nat) (decimals : Int) : Option Nat :=
  if 0 ≤ decimals then do
    let factor ← ar.pow 256 10 decimals.toNat
    some (min (value * factor) (2 ^ 256 - 1))
  else do
    let flipped ← ar.ineg 8 decimals
    let factor ← ar.pow 256 10 (flipped % 256).toNat
    Arith.div value factor

/-- `sub_checked`. -/
def subChecked (a b : Nat) : Nat := a - b

/-- The quotient of a positive dividend, rounded up. -/
def ceilDiv (a b : Nat) : Option Nat := do
  let less ← ar.sub 256 a 1
  let quotient ← Arith.div less b
  ar.add 256 quotient 1

/-- `div_up`. -/
def divUp (a b : Nat) : Option Nat :=
  if a = 0 ∨ b = 0 then some 0
  else do
    let inflated ← ar.mul 256 a one18
    ceilDiv ar inflated b

/-- `div_down`. -/
def divDown (a b : Nat) : Option Nat :=
  if a = 0 ∨ b = 0 then some 0
  else do
    let inflated ← ar.mul 256 a one18
    Arith.div inflated b

/-- `mul_up`. -/
def mulUp (a b : Nat) : Option Nat := do
  let product ← ar.mul 256 a b
  if product = 0 then some 0 else ceilDiv ar product one18

/-- `mul_down`. -/
def mulDown (a b : Nat) : Option Nat := do
  let product ← ar.mul 256 a b
  Arith.div product one18

/-- `complement`. -/
def complement (x : Nat) : Option Nat := if x < one18 then ar.sub 256 one18 x else some 0

/-! ## `LogExpMath` -/

namespace LogExpMath

def one18 : Int := 1000000000000000000
def one20 : Int := 100000000000000000000
def one36 : Int := 1000000000000000000000000000000000000

def maxNaturalExponent : Int := 130000000000000000000
def minNaturalExponent : Int := -41000000000000000000

def ln36LowerBound : Int := 900000000000000000
def ln36UpperBound : Int := 1100000000000000000

def mildExponentBound : Nat := 2 ^ 254 / 100000000000000000000

def x0 : Int := 128000000000000000000
def a0 : Int := 38877084059945950922200000000000000000000000000000000000
def x1 : Int := 64000000000000000000
def a1 : Int := 6235149080811616882910000000
def x2 : Int := 3200000000000000000000
def a2 : Int := 7896296018268069516100000000000000
def x3 : Int := 1600000000000000000000
def a3 : Int := 888611052050787263676000000
def x4 : Int := 800000000000000000000
def a4 : Int := 298095798704172827474000
def x5 : Int := 400000000000000000000
def a5 : Int := 5459815003314423907810
def x6 : Int := 200000000000000000000
def a6 : Int := 738905609893065022723
def x7 : Int := 100000000000000000000
def a7 : Int := 271828182845904523536
def x8 : Int := 50000000000000000000
def a8 : Int := 164872127070012814685
def x9 : Int := 25000000000000000000
def a9 : Int := 128402541668774148407
def x10 : Int := 12500000000000000000
def a10 : Int := 113314845306682631683
def x11 : Int := 6250000000000000000
def a11 : Int := 106449445891785942956

/-- The powers of e that `exp` takes out of its argument, with the powers. -/
def expPowers : List (Int × Int) :=
  [(x2, a2), (x3, a3), (x4, a4), (x5, a5), (x6, a6), (x7, a7), (x8, a8), (x9, a9)]

/-- The powers of e that `_ln` takes out of its argument. -/
def lnPowers : List (Int × Int) := expPowers ++ [(x10, a10), (x11, a11)]

/-- One power taken out of `x`, of which the first part is the product of the powers so far. -/
def expReduce (state power : Int × Int) : Option (Int × Int) :=
  if power.1 ≤ state.1 then do
    let x ← ar.isub 256 state.1 power.1
    let scaled ← ar.imul 256 state.2 power.2
    let product ← ar.idiv 256 scaled one20
    some (x, product)
  else some state

/-- One more term of the series of `exp`, and the sum with it. -/
def expTerm (x : Int) (state : Int × Int) (n : Int) : Option (Int × Int) := do
  let product ← ar.imul 256 state.1 x
  let scaled ← ar.idiv 256 product one20
  let term ← ar.idiv 256 scaled n
  let seriesSum ← ar.iadd 256 state.2 term
  some (term, seriesSum)

/-- `exp` of what the two largest powers have been taken out of. -/
def expRest (x firstAn : Int) : Option Int := do
  let x ← ar.imul 256 x 100
  let (x, product) ← expPowers.foldlM (expReduce ar) (x, one20)
  let firstSum ← ar.iadd 256 one20 x
  let (_, seriesSum) ← [2, 3, 4, 5, 6, 7, 8, 9, 10, 11, 12].foldlM (expTerm ar x) (x, firstSum)
  let scaled ← ar.imul 256 product seriesSum
  let whole ← ar.idiv 256 scaled one20
  let result ← ar.imul 256 whole firstAn
  ar.idiv 256 result 100

/-- `exp` of a number that is not negative. -/
def expPositive (x : Int) : Option Int :=
  if x0 ≤ x then do
    let x ← ar.isub 256 x x0
    expRest ar x a0
  else if x1 ≤ x then do
    let x ← ar.isub 256 x x1
    expRest ar x a1
  else expRest ar x 1

/-- `exp`. -/
def exp : Nat → Int → Option Int
  | 0, _ => none
  | depth + 1, x =>
    if x < minNaturalExponent ∨ maxNaturalExponent < x then some 0
    else if x < 0 then do
      let square ← ar.imul 256 one18 one18
      let flipped ← ar.ineg 256 x
      let inverse ← exp depth flipped
      ar.idiv 256 square inverse
    else expPositive ar x

/-- One of the two largest powers taken out of `a`, with the sum of the powers so far. -/
def lnDivide (state power : Int × Int) : Option (Int × Int) := do
  let bound ← ar.imul 256 power.2 one18
  if bound ≤ state.1 then do
    let a ← ar.idiv 256 state.1 power.2
    let sum ← ar.iadd 256 state.2 power.1
    some (a, sum)
  else some state

/-- One of the other powers taken out of `a`. -/
def lnReduce (state power : Int × Int) : Option (Int × Int) :=
  if power.2 ≤ state.1 then do
    let scaled ← ar.imul 256 state.1 one20
    let a ← ar.idiv 256 scaled power.2
    let sum ← ar.iadd 256 state.2 power.1
    some (a, sum)
  else some state

/-- One more term of the series of `_ln`, without its divisor, and the sum with it. -/
def lnTerm (one zSquared : Int) (state : Int × Int) (n : Int) : Option (Int × Int) := do
  let product ← ar.imul 256 state.1 zSquared
  let num ← ar.idiv 256 product one
  let term ← ar.idiv 256 num n
  let seriesSum ← ar.iadd 256 state.2 term
  some (num, seriesSum)

/-- The series of `(x - one) / (x + one)`, twice. -/
def lnSeries (x one : Int) (divisors : List Int) : Option Int := do
  let less ← ar.isub 256 x one
  let scaled ← ar.imul 256 less one
  let more ← ar.iadd 256 x one
  let z ← ar.idiv 256 scaled more
  let square ← ar.imul 256 z z
  let zSquared ← ar.idiv 256 square one
  let (_, seriesSum) ← divisors.foldlM (lnTerm ar one zSquared) (z, z)
  ar.imul 256 seriesSum 2

/-- `_ln` of a number that is at least one. -/
def lnAbove (a : Int) : Option Int := do
  let (a, sum) ← [(x0, a0), (x1, a1)].foldlM (lnDivide ar) (a, 0)
  let sum ← ar.imul 256 sum 100
  let a ← ar.imul 256 a 100
  let (a, sum) ← lnPowers.foldlM (lnReduce ar) (a, sum)
  let seriesSum ← lnSeries ar a one20 [3, 5, 7, 9, 11]
  let total ← ar.iadd 256 sum seriesSum
  ar.idiv 256 total 100

/-- `_ln`. -/
def ln : Nat → Int → Option Int
  | 0, _ => none
  | depth + 1, a =>
    if a < one18 then do
      let square ← ar.imul 256 one18 one18
      let inverse ← ar.idiv 256 square a
      let result ← ln depth inverse
      ar.ineg 256 result
    else lnAbove ar a

/-- `_ln_36`. -/
def ln36 (x : Int) : Option Int := do
  let x ← ar.imul 256 x one18
  lnSeries ar x one36 [3, 5, 7, 9, 11, 13, 15]

/-- The logarithm times the exponent, before the division that both branches share. -/
def logxTimesY (depth : Nat) (x y : Int) : Option Int :=
  if ln36LowerBound < x ∧ x < ln36UpperBound then do
    let ln36X ← ln36 ar x
    let quotient ← ar.idiv 256 ln36X one18
    let whole ← ar.imul 256 quotient y
    let rest ← ar.irem 256 ln36X one18
    let product ← ar.imul 256 rest y
    let part ← ar.idiv 256 product one18
    ar.iadd 256 whole part
  else do
    let lnX ← ln ar depth x
    ar.imul 256 lnX y

/-- `pow`. -/
def pow (depth x y : Nat) : Option Nat :=
  if y = 0 then some Balancer.one18
  else if x = 0 then some 0
  else if 2 ^ 255 ≤ x then some 0
  else if mildExponentBound ≤ y then some 0
  else do
    let product ← logxTimesY ar depth x y
    let logxTimesY ← ar.idiv 256 product one18
    if logxTimesY < minNaturalExponent ∨ maxNaturalExponent < logxTimesY then some 0
    else do
      let result ← exp ar depth logxTimesY
      let magnitude ← ar.int 256 |result|
      some (if magnitude < 0 then 0 else magnitude.toNat)

end LogExpMath

/-- `pow_up`. -/
def powUp (depth x y : Nat) : Option Nat := do
  let two ← ar.mul 256 one18 2
  let four ← ar.mul 256 one18 4
  if y = one18 then some x
  else if y = two then mulUp ar x x
  else if y = four then do
    let square ← mulUp ar x x
    mulUp ar square square
  else do
    let raw ← LogExpMath.pow ar depth x y
    let relative ← mulUp ar raw 10000
    let maxError ← ar.add 256 relative 1
    ar.add 256 raw maxError

/-- `get_amount_out_balancer`. -/
def getAmountOutBalancer (depth : Nat) (amountIn balanceIn balanceOut weightIn weightOut
    swapFee : U256) (tokenInDecimals : UInt8) : Option U256 :=
  if amountIn = 0 ∨ balanceIn = 0 ∨ balanceOut = 0 then some 0
  else do
    let scalingFactor ← ar.isub 8 18 (wrapInt 8 tokenInDecimals.toNat)
    let scaledAmountIn ← scale ar amountIn.toNat scalingFactor
    let fee ← mulUp ar scaledAmountIn swapFee.toNat
    let amountInWithoutFees := subChecked scaledAmountIn fee
    let denominator ← ar.add 256 balanceIn.toNat amountInWithoutFees
    if denominator = 0 then some 0
    else do
      let base ← divUp ar balanceIn.toNat denominator
      let exponent ← divDown ar weightIn.toNat weightOut.toNat
      if exponent = 0 ∨ one18 ≤ base then some 0
      else do
        let power ← powUp ar depth base exponent
        let rest ← complement ar power
        let out ← mulDown ar balanceOut.toNat rest
        some (BitVec.ofNat 256 out)

end Balancer

end ArbBot
