import ArbBot.Calculation.V2
import ArbBot.StateDb

/-!
# The round-trip filter

`validate_v2_roundtrip` (`filter_revm.rs`): a pool is sold the test amount and bought back from
with the output, on the reserves the first swap leaves. The filter by traded volume asks a web
service and is left out.
-/

namespace ArbBot

open Lib

/-- `RoundtripResult`. -/
inductive RoundtripResult where
  | safe (lossBps : UInt64)
  | toxic (lossBps : UInt64)
  | unknown
  deriving DecidableEq, Repr

namespace RoundtripResult

/-- The loss a result reports. -/
def lossBps : RoundtripResult → Option UInt64
  | safe loss | toxic loss => some loss
  | unknown => none

end RoundtripResult

/-- `U256::to::<u64>`, which panics on a word that does not fit. -/
def toU64 (word : U256) : Option UInt64 :=
  if word.toNat < 2 ^ 64 then some (.ofNat word.toNat) else none

/-- The part of `validate_v2_roundtrip` that follows the reads of the reserves; `none` is a
panic. -/
def roundtrip (reserve0 reserve1 : U256) (feeFactor : UInt64) (testAmount : U256)
    (maxLossBps : UInt64) : Option RoundtripResult :=
  if reserve0 = 0 ∨ reserve1 = 0 then some (.toxic 10000)
  else
    let mid := getAmountOutV2 testAmount reserve0 reserve1 feeFactor
    if mid = 0 then some (.toxic 10000)
    else
      let newR0 := reserve0 + testAmount
      let newR1 := reserve1 - mid
      let back := getAmountOutV2 mid newR1 newR0 feeFactor
      if back = 0 then some (.toxic 10000)
      else if testAmount ≤ back then some (.safe 0)
      else do
        let loss := testAmount - back
        let lossBps ← toU64 (loss * 10000 / testAmount)
        if maxLossBps < lossBps then some (.toxic lossBps) else some (.safe lossBps)

/-- `validate_v2_roundtrip`. -/
def validateV2Roundtrip (stateDb : StateDb) (pool : Address) (feeFactor : UInt64)
    (testAmount : U256) (maxLossBps : UInt64) : Option RoundtripResult :=
  match stateDb.readV2Reserves pool with
  | none => some .unknown
  | some (reserve0, reserve1) => roundtrip reserve0 reserve1 feeFactor testAmount maxLossBps

end ArbBot
