import ArbBot.SwapTypes
import Mathlib.Logic.Function.Basic

/-!
# The cache of swap results

`CalcCache` of `cache_v2.rs`: the results by key, and an index of the keys of each pool for
invalidation. Every operation makes its calls on the two maps one after the other, and each call is
one atomic step. Capacities and the number of entries are left out.
-/

namespace ArbBot

/-- `CacheKey`. -/
structure CacheKey where
  pool : Address
  amountIn : U256
  zeroForOne : Bool
  deriving DecidableEq

/-- `CacheValue`. -/
structure CacheValue where
  amountOut : U256
  blockNumber : UInt64
  deriving DecidableEq

/-- `CalcCache`. -/
structure CalcCache where
  map : CacheKey → Option CacheValue
  poolKeys : Address → Option (List CacheKey)

namespace CalcCache

/-- `new`. -/
def new : CalcCache := ⟨fun _ => none, fun _ => none⟩

/-- `get`. -/
def get (c : CalcCache) (key : CacheKey) : Option CacheValue := c.map key

/-- `get_fresh`. -/
def getFresh (c : CalcCache) (key : CacheKey) (currentBlock : UInt64) : Option U256 :=
  ((c.map key).filter (·.blockNumber == currentBlock)).map (·.amountOut)

/-! ## The calls on the maps -/

/-- `pool_keys.entry(key.pool).or_insert_with(Vec::new).push(key)`. -/
def pushKey (c : CalcCache) (key : CacheKey) : CalcCache :=
  let keys := (c.poolKeys key.pool).getD [] ++ [key]
  { c with poolKeys := Function.update c.poolKeys key.pool (some keys) }

/-- `map.insert(key, value)`. -/
def store (c : CalcCache) (key : CacheKey) (value : CacheValue) : CalcCache :=
  { c with map := Function.update c.map key (some value) }

/-- `pool_keys.remove(pool)`: the cache after it; the keys are those of before. -/
def takeKeys (c : CalcCache) (pool : Address) : CalcCache :=
  { c with poolKeys := Function.update c.poolKeys pool none }

/-- `map.remove(&key)`. -/
def drop (c : CalcCache) (key : CacheKey) : CalcCache :=
  { c with map := Function.update c.map key none }

/-- `map.clear()`. -/
def clearMap (c : CalcCache) : CalcCache := { c with map := fun _ => none }

/-- `pool_keys.clear()`. -/
def clearIndex (c : CalcCache) : CalcCache := { c with poolKeys := fun _ => none }

/-! ## The operations -/

/-- `insert`. -/
def insert (c : CalcCache) (key : CacheKey) (value : CacheValue) : CalcCache :=
  (c.pushKey key).store key value

/-- `cache_amount_out`. -/
def cacheAmountOut (c : CalcCache) (pool : Address) (amountIn : U256) (zeroForOne : Bool)
    (amountOut : U256) (blockNumber : UInt64) : CalcCache :=
  c.insert ⟨pool, amountIn, zeroForOne⟩ ⟨amountOut, blockNumber⟩

/-- `invalidate_pool`. -/
def invalidatePool (c : CalcCache) (pool : Address) : CalcCache :=
  match c.poolKeys pool with
  | some keys => keys.foldl drop (c.takeKeys pool)
  | none => c

/-- `invalidate_pools`. -/
def invalidatePools (c : CalcCache) (pools : List Address) : CalcCache :=
  pools.foldl invalidatePool c

/-- `clear`. -/
def clear (c : CalcCache) : CalcCache := c.clearMap.clearIndex

/-- `retain_fresh`, one call. -/
def retainFresh (c : CalcCache) (currentBlock : UInt64) : CalcCache :=
  { c with map := fun key => (c.map key).filter (·.blockNumber == currentBlock) }

/-! ## Threads -/

/-- What a thread still has to do for the operation it is in. -/
inductive Doing where
  | idle
  | inserting (key : CacheKey) (value : CacheValue)
  | removing (key : CacheKey) (keys : List CacheKey)
  | clearing
  deriving DecidableEq

namespace Doing

/-- The loop over the keys of an invalidated pool. -/
def loop : List CacheKey → Doing
  | [] => idle
  | key :: keys => removing key keys

/-- The keys an invalidation still removes. -/
def pending : Doing → List CacheKey
  | removing key keys => key :: keys
  | _ => []

end Doing

/-- The shared cache, and what each thread is in the middle of. -/
structure System (ι : Type) where
  cache : CalcCache
  doing : ι → Doing

/-- One call of a thread on one of the maps. -/
inductive Call (ι : Type) where
  | push (thread : ι) (key : CacheKey) (value : CacheValue)
  | store (thread : ι)
  | take (thread : ι) (pool : Address)
  | drop (thread : ι)
  | clearMap (thread : ι)
  | clearIndex (thread : ι)
  | retain (thread : ι) (currentBlock : UInt64)

namespace System

variable {ι : Type} [DecidableEq ι]

/-- The system before any operation. -/
def start : System ι := ⟨.new, fun _ => .idle⟩

/-- A call changes the cache, and what its thread has still to do. -/
def set (s : System ι) (thread : ι) (cache : CalcCache) (doing : Doing) : System ι :=
  ⟨cache, Function.update s.doing thread doing⟩

/-- The system after a call; `none` where the thread is not at this call. -/
def call (s : System ι) : Call ι → Option (System ι)
  | .push i key value =>
    match s.doing i with
    | .idle => some (s.set i (s.cache.pushKey key) (.inserting key value))
    | _ => none
  | .store i =>
    match s.doing i with
    | .inserting key value => some (s.set i (s.cache.store key value) .idle)
    | _ => none
  | .take i pool =>
    match s.doing i with
    | .idle => some (s.set i (s.cache.takeKeys pool) (.loop ((s.cache.poolKeys pool).getD [])))
    | _ => none
  | .drop i =>
    match s.doing i with
    | .removing key keys => some (s.set i (s.cache.drop key) (.loop keys))
    | _ => none
  | .clearMap i =>
    match s.doing i with
    | .idle => some (s.set i s.cache.clearMap .clearing)
    | _ => none
  | .clearIndex i =>
    match s.doing i with
    | .clearing => some (s.set i s.cache.clearIndex .idle)
    | _ => none
  | .retain i currentBlock =>
    match s.doing i with
    | .idle => some (s.set i (s.cache.retainFresh currentBlock) .idle)
    | _ => none

/-- One step of the system. -/
def Step (s : System ι) (c : Call ι) (t : System ι) : Prop := s.call c = some t

/-- No operation is in progress. -/
def Quiet (s : System ι) : Prop := ∀ i, s.doing i = .idle

end System

end CalcCache

end ArbBot
