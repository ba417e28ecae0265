import ArbBot.SwapTypes

/-!
# The path-rate cache

`PathRateCache` of `cache_v2.rs`: the cumulative rate of a path, with the block number it was
computed under. Each operation is one atomic step on the map.
-/

namespace ArbBot

/-- Rate and block number by path hash. -/
structure PathRateCache where
  map : UInt64 → Option (U256 × UInt64)

namespace PathRateCache

def new : PathRateCache := ⟨fun _ => none⟩

/-- `get_fresh`: the rate, when it was computed under the current block number. -/
def getFresh (c : PathRateCache) (pathHash currentBlock : UInt64) : Option U256 :=
  match c.map pathHash with
  | some (rate, block) => if block = currentBlock then some rate else none
  | none => none

/-- `insert`. -/
def insert (c : PathRateCache) (pathHash : UInt64) (rate : U256) (blockNumber : UInt64) :
    PathRateCache :=
  ⟨fun h => if h = pathHash then some (rate, blockNumber) else c.map h⟩

@[simp] theorem getFresh_new (h b : UInt64) : new.getFresh h b = none := rfl

/-- An entry is not touched by an insertion under another hash. -/
theorem getFresh_insert_of_ne {c : PathRateCache} {h h' b b' : UInt64} {rate : U256}
    (hne : h ≠ h') : (c.insert h' rate b').getFresh h b = c.getFresh h b := by
  simp only [getFresh, insert, if_neg hne]

end PathRateCache

end ArbBot
