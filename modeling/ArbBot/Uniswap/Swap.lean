import ArbBot.Calculation.V3
import ArbBot.Lib.BitScan
import Mathlib.Algebra.BigOperators.Group.Finset.Basic
import Mathlib.Logic.Relation

/-!
# The swap loop on chain

What an exact-input swap pays in a pool of Uniswap V3. A pool is its initialised ticks with their
net liquidities, and the liquidity at a tick is the sum of those at and below it. The loop goes
from tick to tick until the input is used up or the price is at the limit. This is the meaning the
quotes of `calculation/v3.rs` are compared with; it is not part of the repository.
-/

namespace ArbBot

namespace Uniswap

open Lib V3

/-- A pool. The spacing is an `int24`, the net liquidities are of type `int128`, and the liquidity
at every tick is a `uint128`. -/
structure Pool where
  spacing : Int
  ticks : Finset Int
  net : Int → Int
  spacing_pos : 0 < spacing
  spacing_lt : spacing < 2 ^ 23
  spacing_dvd : ∀ tick ∈ ticks, spacing ∣ tick
  ticks_range : ∀ tick ∈ ticks, minTick ≤ tick ∧ tick ≤ maxTick
  net_range : ∀ tick ∈ ticks, -2 ^ 127 ≤ net tick ∧ net tick < 2 ^ 127
  sum_range : ∀ tick, 0 ≤ ∑ t ∈ ticks.filter (· ≤ tick), net t ∧
    ∑ t ∈ ticks.filter (· ≤ tick), net t < 2 ^ 128

namespace Pool

/-- The liquidity in range at a tick. -/
def liquidityAt (pool : Pool) (tick : Int) : Int :=
  ∑ t ∈ pool.ticks.filter (· ≤ tick), pool.net t

/-- The tick of a bit of a word. -/
def tickOf (pool : Pool) (word : Int) (bit : Nat) : Int := (word * 256 + bit) * pool.spacing

/-- `nextInitializedTickWithinOneWord`: the nearest initialised tick at or below the tick, or above
it, of the word of 256 ticks where the search starts, else the last tick of that word. -/
def nextTick (pool : Pool) (zeroForOne : Bool) (tick : Int) : Int × Bool :=
  let index := if zeroForOne then tick / pool.spacing else tick / pool.spacing + 1
  let word := index / 256
  let bit := (index % 256).toNat
  let initialized (i : Nat) : Bool := decide (pool.tickOf word i ∈ pool.ticks)
  if zeroForOne then
    match lastBelow initialized bit with
    | some i => (pool.tickOf word i, true)
    | none => (pool.tickOf word 0, false)
  else
    match firstFrom initialized (256 - bit) bit with
    | some i => (pool.tickOf word i, true)
    | none => (pool.tickOf word 255, false)

end Pool

/-- The state of the loop. -/
structure Swap where
  sqrtPrice : U256
  tick : Int
  liquidity : Int
  remaining : Int
  paid : Nat
  deriving DecidableEq

variable (math : V3Math) (pool : Pool) (zeroForOne : Bool) (fee : UInt32)

/-- The condition of the loop fails: the input is used up, or the price is at the limit. -/
def Swap.Done (s : Swap) : Prop := s.remaining = 0 ∨ s.sqrtPrice = sqrtPriceLimit zeroForOne

instance (s : Swap) : Decidable (s.Done zeroForOne) :=
  inferInstanceAs (Decidable (s.remaining = 0 ∨ s.sqrtPrice = sqrtPriceLimit zeroForOne))

/-- `LiquidityMath.addDelta`, which reverts out of range. -/
def addDelta (liquidity delta : Int) : Option Int :=
  if 0 ≤ liquidity + delta ∧ liquidity + delta < 2 ^ 128 then some (liquidity + delta) else none

/-- The liquidity and the tick after a step to a price. -/
def Swap.land (s : Swap) (next : Int) (initialized : Bool) (sqrtPriceNext sqrtPrice : U256) :
    Option (Int × Int) :=
  if sqrtPrice = sqrtPriceNext then
    (if initialized then
      addDelta s.liquidity (if zeroForOne then -pool.net next else pool.net next)
    else some s.liquidity).map fun liquidity =>
      (liquidity, if zeroForOne then next - 1 else next)
  else if sqrtPrice ≠ s.sqrtPrice then
    (math.getTickAtSqrtRatio sqrtPrice).map (Prod.mk s.liquidity)
  else some (s.liquidity, s.tick)

/-- One pass through the loop. -/
def Swap.step (s : Swap) : Option Swap := do
  let (next, initialized) := pool.nextTick zeroForOne s.tick
  let next := max minTick (min next maxTick)
  let sqrtPriceNext ← math.getSqrtRatioAtTick next
  let limit := sqrtPriceLimit zeroForOne
  let beyond := if zeroForOne then sqrtPriceNext < limit else limit < sqrtPriceNext
  let (sqrtPrice, amountIn, amountOut, feeAmount) ←
    math.computeSwapStep s.sqrtPrice (if beyond then limit else sqrtPriceNext)
      (BitVec.ofInt 128 s.liquidity) s.remaining fee
  let (liquidity, tick) ← s.land math pool zeroForOne next initialized sqrtPriceNext sqrtPrice
  some ⟨sqrtPrice, tick, liquidity, s.remaining - (amountIn.toNat + feeAmount.toNat : Nat),
    s.paid + amountOut.toNat⟩

/-- The loop goes on from one state to the next. -/
def Goes (s t : Swap) : Prop := ¬ s.Done zeroForOne ∧ s.step math pool zeroForOne fee = some t

/-- From a state on, the loop comes to its end, and has paid so much in total. -/
def Pays (s : Swap) (out : Nat) : Prop :=
  ∃ last, Relation.ReflTransGen (Goes math pool zeroForOne fee) s last ∧ last.Done zeroForOne ∧
    last.paid = out

/-- The loop, until it is done, is at a tick without liquidity, or has been passed through so many
times. -/
def advance : Nat → Swap → Option Swap
  | 0, s => some s
  | n + 1, s =>
    if s.Done zeroForOne ∨ s.liquidity = 0 then some s
    else (s.step math pool zeroForOne fee).bind (advance n)

/-- The state a swap starts from. -/
def start (sqrtPrice : U256) (tick : Int) (amountIn : U256) : Swap :=
  ⟨sqrtPrice, tick, pool.liquidityAt tick, amountIn.toNat, 0⟩

end Uniswap

end ArbBot
