import ArbBot.Lib.Word
import ArbBot.SwapTypes

/-!
# 512-bit products in the contracts

`mulDiv` of `V2ArbBot.sol` and `_mulDiv` of `FlashQuoter.sol`: the two copies of the algorithm
share their steps and differ in what they do when the quotient does not fit and in the number of
Newton rounds. Word operations are those of the EVM: they wrap, and division by zero is zero.
-/

namespace ArbBot.FullMath

/-- `mulmod`. -/
def mulmod (a b m : U256) : U256 :=
  if m = 0 then 0 else BitVec.ofNat 256 (a.toNat * b.toNat % m.toNat)

/-- A comparison as a word. -/
def flag (c : Prop) [Decidable c] : U256 := if c then 1 else 0

/-- The high word of the product. -/
def prod1 (a b : U256) : U256 :=
  let mm := mulmod a b (~~~0)
  let prod0 := a * b
  mm - prod0 - flag (mm < prod0)

/-- The rounds that invert an odd word. -/
def invert (denom : U256) : Nat → U256
  | 0 => (3 * denom) ^^^ 2
  | rounds + 1 =>
    let inv := invert denom rounds
    inv * (2 - denom * inv)

/-- The division of the 512-bit product, once its quotient is known to fit. -/
def divide (rounds : Nat) (a b denom : U256) : U256 :=
  let prod0 := a * b
  let remainder := mulmod a b denom
  let high := prod1 a b - flag (prod0 < remainder)
  let low := prod0 - remainder
  let twos := (0 - denom) &&& denom
  let odd := denom / twos
  let low := low / twos ||| high * ((0 - twos) / twos + 1)
  low * invert odd rounds

end ArbBot.FullMath

namespace ArbBot

open FullMath

/-- `mulDiv` of the bot: six rounds, and it reverts when the quotient does not fit. -/
def V2ArbBot.mulDiv (a b denom : U256) : Option U256 :=
  if denom = 0 then none
  else if prod1 a b = 0 then some (a * b / denom)
  else if prod1 a b < denom then some (divide 6 a b denom)
  else none

/-- `_mulDiv` of the quoter: seven rounds, and zero when the quotient does not fit. -/
def FlashQuoter.mulDiv (a b d : U256) : U256 :=
  if d = 0 then 0
  else if prod1 a b = 0 then a * b / d
  else if prod1 a b < d then divide 7 a b d
  else 0

end ArbBot
