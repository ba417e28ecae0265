import ArbBot.Lib.Word

/-!
# Gas station

Base-fee prediction and the profit-proportional priority fee (`gas_station.rs`). A zero elasticity
or denominator divides by zero where the source does, which is `none` here. Products of two 64-bit
words fit the 128 bits the source widens them to, so they are natural numbers; the conversions
back to 64 bits truncate.
-/

namespace ArbBot

open Lib

/-- `calc_next_base_fee`. -/
def calcNextBaseFee (parentBaseFee parentGasUsed parentGasLimit elasticityMultiplier
    baseFeeChangeDenominator minBaseFeeWei : UInt64) : Option UInt64 :=
  if parentGasLimit = 0 then some (max parentBaseFee minBaseFeeWei)
  else if elasticityMultiplier = 0 then none
  else
    let parentGasTarget := parentGasLimit / elasticityMultiplier
    -- the fee moved by a gap to the target, before the truncation to 64 bits
    let delta (gap : UInt64) : UInt64 :=
      UInt64.ofNat (parentBaseFee.toNat * gap.toNat / parentGasTarget.toNat /
        baseFeeChangeDenominator.toNat)
    if parentGasTarget = 0 then some (max parentBaseFee minBaseFeeWei)
    else if parentGasUsed = parentGasTarget then some (max parentBaseFee minBaseFeeWei)
    else if baseFeeChangeDenominator = 0 then none
    else if parentGasTarget < parentGasUsed then
      some (max (saturatingAdd parentBaseFee (max (delta (parentGasUsed - parentGasTarget)) 1))
        minBaseFeeWei)
    else
      some (max (saturatingSub parentBaseFee (delta (parentGasTarget - parentGasUsed)))
        minBaseFeeWei)

/-- The tracker and its chain parameters. -/
structure GasStation where
  baseFee : UInt64
  lastGasUsed : UInt64
  lastGasLimit : UInt64
  elasticityMultiplier : UInt64
  baseFeeChangeDenominator : UInt64
  minBaseFeeWei : UInt64
  priorityFeeCapWei : UInt64

namespace GasStation

/-- `update_from_block`. -/
def updateFromBlock (g : GasStation) (baseFee gasUsed gasLimit : UInt64) : GasStation :=
  { g with baseFee := baseFee, lastGasUsed := gasUsed, lastGasLimit := gasLimit }

/-- `predict_next_base_fee`. -/
def predictNextBaseFee (g : GasStation) : Option UInt64 :=
  calcNextBaseFee g.baseFee g.lastGasUsed g.lastGasLimit g.elasticityMultiplier
    g.baseFeeChangeDenominator g.minBaseFeeWei

/-- `calc_priority_fee`. -/
def calcPriorityFee (g : GasStation) (profitWei gasEstimate profitShareBps : UInt64) : UInt64 :=
  if gasEstimate = 0 then 0
  else
    let share := profitWei.toNat * profitShareBps.toNat / 10000
    min (UInt64.ofNat (share / gasEstimate.toNat)) g.priorityFeeCapWei

/-- `estimate_gas_cost_wei`. -/
def estimateGasCostWei (g : GasStation) (gasEstimate : UInt64) : Option UInt64 :=
  g.predictNextBaseFee.map fun base => saturatingMul base gasEstimate

end GasStation

end ArbBot
