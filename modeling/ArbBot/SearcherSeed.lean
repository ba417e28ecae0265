import ArbBot.Searcher
import ArbBot.Tracing

/-!
# The searcher's first rates

`seed_initial_rates` (`searcher_pipeline.rs`), which runs before the loop of the searcher. Pools with
concentrated liquidity and exotic ones are given a rate from what the database has of them; for the
others the reserves are fetched first, by batches of 200 requests. The order of the pools is that of
their hash map.
-/

namespace ArbBot.Searcher

open Lib

/-- What comes back for a batch of reads of slot 8: the `result` of each item of the list, as far as
it has one, if the request succeeds with a list. -/
abbrev SeedService := List Address → Option (List (Option String))

/-- The word of a result: the first 32 bytes of the digits, padded on the left. -/
def seedWord (text : String) : Option U256 := do
  let digits := Tracing.trimPrefix text.toList
  let bytes ← Tracing.hexDecode (List.replicate (64 - digits.length) '0' ++ digits)
  return BitVec.ofNat 256 (Bytes.toNat (bytes.take 32))

/-- A result, written to the pool at the same place of the batch. -/
def storeSeed (db : StateDb) (entry : Address × Option String) : StateDb :=
  match entry.2.bind seedWord with
  | none => db
  | some value => if value = 0 then db else db.updateSlot entry.1 StateDb.v2ReservesSlot value

/-- One batch. -/
def seedChunk (service : SeedService) (db : StateDb) (chunk : List Address) : StateDb :=
  match service chunk with
  | none => db
  | some results => (chunk.zip results).foldl storeSeed db

/-- `chunks(size)`. -/
def chunksOf (size : Nat) (pools : List Address) : List (List Address) :=
  (List.range ((pools.length + size - 1) / size)).map fun k => (pools.drop (size * k)).take size

/-- The pools that are not priced from their reserves. -/
def isPassthrough (m : PoolMeta) : Bool := m.isV3 || m.protocol.isExotic

def slot8Pools (s : Searcher) (order : List Address) : List Address :=
  order.filter fun pool => (s.poolMeta pool).any fun m => !isPassthrough m

def passthroughPools (s : Searcher) (order : List Address) : List Address :=
  order.filter fun pool => (s.poolMeta pool).any isPassthrough

/-- `pool_count` has grown: the update of the pool has added an entry. -/
def grew (est est' : RateEstimator) (pool : Address) : Bool :=
  [true, false].any fun d => (est.rates pool d).isNone && (est'.rates pool d).isSome

/-- The rates of a pool that is not priced from its reserves. -/
def seedPassthrough (s : Searcher) (db : StateDb) (est : RateEstimator) (pool : Address) :
    RateEstimator :=
  match s.poolMeta pool with
  | none => est.updateExoticPassthrough pool
  | some m =>
    if m.isV3 then
      let spot := est.updateV3SpotRate db pool m.decimals0 m.decimals1 m.fee
      if grew est spot pool then spot
      else if 0 < m.fee then spot.updateV3PassthroughWithFee pool m.fee
      else spot.updateExoticPassthrough pool
    else est.updateExoticPassthrough pool

/-- `seed_initial_rates`. -/
def seedInitialRates (s : Searcher) (quote : V3Quote) (service : SeedService) (rpcUrl : String)
    (order : List Address) (m : Memory) : Memory :=
  if order = [] ∨ rpcUrl = "" then m
  else
    let est := (s.passthroughPools order).foldl (s.seedPassthrough m.db) m.estimator
    let db := (chunksOf 200 (s.slot8Pools order)).foldl (seedChunk service) m.db
    s.updateRatesForPools quote { m with db := db, estimator := est } (s.slot8Pools order)

end ArbBot.Searcher
