import ArbBot.GasStation
import ArbBot.PipelineEvents
import ArbBot.Quoter
import ArbBot.SimDb

/-!
# The simulator

`simulate_and_optimize` of `simulator_pipeline.rs`: the best input for a path, the flash-loan fee,
the conversion of the profit to the native token by a price pool, and the gas. Ring operations on
words wrap, those written `checked_` in the source do not. What the virtual machine answers for a
path is the parameter `Revm`. The loop around it, with its stale checks and blacklists, is left
out.
-/

namespace ArbBot.Simulator

open Lib

/-- The fields of `SimulatorConfig` that the simulation of a path reads. -/
structure Config where
  minProfitWei : U256
  optimizationSteps : Nat
  minInput : U256
  maxInput : U256
  flashLoanFeeBps : UInt64

/-- `SimulatorWorker`, apart from what it shares with the other workers. -/
structure Worker where
  config : Config
  gasStation : GasStation
  nativeToken : Address
  tokenPricePools : Address → Option Address

/-- The quotes of a path, the accesses of the runs behind them, and the node's answers to what
these do not find. -/
structure Revm where
  quote : U256 → Option U256
  accesses : List SimDb.Access
  fetch : Address → U256 → U256

def q96 : U256 := 1 <<< 96

/-- `v3_spot_price_convert`. -/
def v3SpotPriceConvert (profit sqrtPriceX96 : U256) (startIsToken0 : Bool) : Option U256 :=
  if sqrtPriceX96 = 0 ∨ profit = 0 then some 0
  else if startIsToken0 then do
    let step1 := (← checkedMul profit sqrtPriceX96) >>> 96
    some ((← checkedMul step1 sqrtPriceX96) >>> 96)
  else do
    let step1 := (← checkedMul profit q96) / sqrtPriceX96
    some ((← checkedMul step1 q96) / sqrtPriceX96)

/-- How a profit in a start token becomes a profit in the native token. -/
inductive Pricing where
  /-- The profit is taken as it is. -/
  | raw
  | v2 (rToken rNative : U256)
  | v3 (sqrtPriceX96 : U256) (startIsToken0 : Bool)

/-- The choice among them: the reserves of the price pool if slot 8 is loaded, else its slot 0. -/
def pricing (w : Worker) (db : StateDb) (startToken : Address) : Pricing :=
  if startToken = w.nativeToken then .raw
  else
    match w.tokenPricePools startToken with
    | none => .raw
    | some pricePool =>
      match db.readV2Reserves pricePool with
      | some (r0, r1) => if startToken < w.nativeToken then .v2 r0 r1 else .v2 r1 r0
      | none =>
        match db.readV3Slot0 pricePool with
        | some (sqrtPriceX96, _) => .v3 sqrtPriceX96 (decide (startToken < w.nativeToken))
        | none => .raw

/-- The conversion; none where the path is given up. -/
def Pricing.convert : Pricing → U256 → Option U256
  | .raw, profit => some profit
  | .v2 rToken rNative, profit => if rToken = 0 then none else some (profit * rNative / rToken)
  | .v3 sqrtPriceX96 startIsToken0, profit =>
    v3SpotPriceConvert profit sqrtPriceX96 startIsToken0

/-- The profit in native token units. -/
def profitNative (w : Worker) (db : StateDb) (startToken : Address) (profitAfterFee : U256) :
    Option U256 :=
  (pricing w db startToken).convert profitAfterFee

/-- The flash-loan fee on a borrowed amount. -/
def flashFee (c : Config) (amountIn : U256) : U256 :=
  if 0 < c.flashLoanFeeBps then amountIn * BitVec.ofNat 256 c.flashLoanFeeBps.toNat / 10000 else 0

/-- The token a path starts from. -/
def startTokenOf (w : Worker) (arb : ArbPath) : Address :=
  (arb.path.steps.head?.map (·.tokenIn)).getD w.nativeToken

/-- The database the price lookup finds: what the runs fetched is written back, and then the other
workers may change it. -/
def lookupDb (r : Revm) (others : StateDb → StateDb) (db : StateDb) : StateDb :=
  others (((SimDb.snapshot db).run r.fetch r.accesses).writeBack db)

/-- `simulate_and_optimize`. None is a path that is given up, and also a gas station that divides by
zero, where the source panics. -/
def simulateAndOptimize (w : Worker) (r : Revm) (others : StateDb → StateDb) (db : StateDb)
    (arb : ArbPath) : Option ValidPath := do
  let c := w.config
  let probeOutput ← r.quote c.minInput
  if probeOutput ≤ c.minInput then none
  else
    let (bestInput, bestOutput) :=
      Quoter.optimizeInputWithDb r.quote c.minInput c.maxInput c.optimizationSteps
    if bestOutput ≤ bestInput then none
    else
      let grossProfit := bestOutput - bestInput
      if flashFee c bestInput < grossProfit then
        let native ← profitNative w (lookupDb r others db) (startTokenOf w arb)
          (grossProfit - flashFee c bestInput)
        let gasCostWei := BitVec.ofNat 256 (← w.gasStation.estimateGasCostWei arb.gasEstimate).toNat
        if native ≤ gasCostWei then none
        else
          let netProfit := native - gasCostWei
          if netProfit < c.minProfitWei then none
          else some ⟨arb, bestInput, bestOutput, gasCostWei, netProfit⟩
      else none

end ArbBot.Simulator
