import ArbBot.CacheV2
import ArbBot.Calculation.Rates
import ArbBot.Lib.Runs
import ArbBot.PipelineEvents
import Mathlib.Data.UInt

/-!
# The searcher

The parts of `SearcherWorker` (`searcher_pipeline.rs`) its loop is made of: the registered paths
and pools, the update of rates, the selection of affected paths, and their parallel evaluation.

The evaluation runs one task per index under rayon. A task looks its path up in the cache, and
unless that turns the path down it evaluates the path and stores the rate. The lookup and the rest
are the two atomic steps of a task, and the tasks interleave in any order. The results are then
sorted by profit with an unstable sort, so their order is any that the sort allows.
-/

namespace ArbBot

open Lib

/-- Pool metadata for rate updates. -/
structure PoolMeta where
  address : Address
  token0 : Address
  token1 : Address
  decimals0 : UInt8
  decimals1 : UInt8
  isV3 : Bool
  fee : UInt32
  tickSpacing : Int32
  protocol : PoolProtocol
  deriving DecidableEq

/-- The fields of the worker that do not change while it runs. -/
structure Searcher where
  maxPathsPerBlock : Nat
  poolToPaths : Address → Option (List Nat)
  allPaths : List SwapPath
  poolMeta : Address → Option PoolMeta

/-- What the worker shares with the other workers: the database, the estimator and the cache. -/
structure Memory where
  db : StateDb
  estimator : RateEstimator
  rateCache : PathRateCache

namespace Searcher

/-- A worker with nothing registered. -/
def new (maxPathsPerBlock : Nat) : Searcher := ⟨maxPathsPerBlock, fun _ => none, [], fun _ => none⟩

/-- `entry(pool).or_insert_with(Vec::new).push(idx)`. -/
def pushPath (index : Address → Option (List Nat)) (pool : Address) (idx : Nat) :
    Address → Option (List Nat) :=
  fun a => if a = pool then some ((index pool).getD [] ++ [idx]) else index a

/-- The loop of `register_paths` from index `idx` on. -/
def indexPaths : List SwapPath → Nat → (Address → Option (List Nat)) →
    (Address → Option (List Nat))
  | [], _, index => index
  | path :: paths, idx, index =>
    indexPaths paths (idx + 1)
      (path.steps.foldl (fun index step => pushPath index step.poolAddress idx) index)

/-- `register_paths`. -/
def registerPaths (s : Searcher) (paths : List SwapPath) : Searcher :=
  { s with
    allPaths := paths
    poolToPaths := indexPaths paths 0 fun _ => none }

/-- `register_pool_meta`. -/
def registerPoolMeta (s : Searcher) (metas : List PoolMeta) : Searcher :=
  metas.foldl
    (fun s m => { s with poolMeta := fun a => if a = m.address then some m else s.poolMeta a }) s

/-! ## Rates -/

/-- The update of one pool with metadata, after its rates are dropped. -/
def updatePool (quote : V3Quote) (db : StateDb) (pool : Address) (m : PoolMeta)
    (est : RateEstimator) : RateEstimator :=
  if m.protocol.isV3 then
    let est := est.updateV3SpotRate db pool m.decimals0 m.decimals1 m.fee
    let est :=
      if (est.rates pool true).isSome then est
      else est.updateV3Rate quote db pool m.decimals0 m.decimals1 m.fee m.tickSpacing
    if (est.rates pool true).isSome then est else est.updateV3PassthroughWithFee pool m.fee
  else if m.protocol = .aerodrome then
    est.updateAerodromeRate db pool m.decimals0 m.decimals1 (decide (m.tickSpacing = 0))
      m.fee.toUInt64
  else if m.protocol.isExotic then est.updateExoticPassthrough pool
  else
    est.updateV2Rate db pool m.decimals0 m.decimals1 (RateEstimator.feeFactor m.protocol m.fee)

/-- `update_rates_for_pools`, on the estimator. -/
def updateRates (s : Searcher) (quote : V3Quote) (db : StateDb) (est : RateEstimator)
    (pools : List Address) : RateEstimator :=
  pools.foldl
    (fun est pool =>
      match s.poolMeta pool with
      | none => est
      | some m => updatePool quote db pool m (est.invalidatePool pool))
    est

/-- `update_rates_for_pools`. -/
def updateRatesForPools (s : Searcher) (quote : V3Quote) (m : Memory) (pools : List Address) :
    Memory :=
  { m with estimator := s.updateRates quote m.db m.estimator pools }

/-! ## Affected paths -/

/-- The indices of the paths through the pools, each one once, in the order they are met. -/
def collectIndices (s : Searcher) (pools : List Address) : List Nat :=
  (pools.flatMap fun pool => (s.poolToPaths pool).getD []).foldl
    (fun indices idx => if idx ∈ indices then indices else indices ++ [idx]) []

/-- `get_affected_paths`: block events shuffle the indices before they are cut to the cap. -/
def getAffectedPaths (s : Searcher) (shuffle : List Nat → List Nat) (pools : List Address)
    (isMempoolEvent : Bool) : List Nat :=
  let indices := s.collectIndices pools
  (if isMempoolEvent then indices else shuffle indices).take s.maxPathsPerBlock

/-! ## Evaluation -/

/-- The gas estimate of a path: a base, and a cost per hop. -/
def estimateGas (path : SwapPath) : UInt64 :=
  60000 + (path.steps.map fun step => if step.protocol.isV3 then 80000 else 50000).sum

/-- What a task returns for the rate of its path. -/
def assess (path : SwapPath) (rate : U256) (blockNumber : UInt64) : Option ArbPath :=
  if rate = 0 then none
  else if rate < rateScale then none
  else some ⟨path, rate - rateScale, estimateGas path, blockNumber⟩

/-- Where a task stands. -/
inductive Task where
  | waiting
  | looked
  | done (result : Option ArbPath)
  deriving DecidableEq

/-- A running evaluation: the cache, and a task for each position of the index list. -/
structure Evaluation where
  cache : PathRateCache
  tasks : Nat → Task

/-- The path of the task at a position. -/
def taskPath (s : Searcher) (indices : List Nat) (k : Nat) : Option SwapPath := do
  let idx ← indices[k]?
  s.allPaths[idx]?

def Evaluation.setTask (e : Evaluation) (k : Nat) (t : Task) : Evaluation :=
  { e with tasks := fun j => if j = k then t else e.tasks j }

/-- The cache holds a rate below break-even for the path under the block number. -/
def turnedDown (c : PathRateCache) (path : SwapPath) (blockNumber : UInt64) : Bool :=
  match c.getFresh path.hash blockNumber with
  | some cachedRate => decide (cachedRate < rateScale)
  | none => false

/-- The next atomic step of the task at position `k`. -/
def taskStep (s : Searcher) (est : RateEstimator) (indices : List Nat) (blockNumber : UInt64)
    (e : Evaluation) (k : Nat) : Option Evaluation :=
  match s.taskPath indices k, e.tasks k with
  | some path, .waiting =>
    if turnedDown e.cache path blockNumber then some (e.setTask k (.done none))
    else some (e.setTask k .looked)
  | some path, .looked =>
    let rate := est.evaluatePath path
    some { (e.setTask k (.done (assess path rate blockNumber))) with
      cache := e.cache.insert path.hash rate blockNumber }
  | _, _ => none

/-- The steps of an evaluation, labelled with the position of the task that moves. -/
def TaskStep (s : Searcher) (est : RateEstimator) (indices : List Nat) (blockNumber : UInt64)
    (e : Evaluation) (k : Nat) (e' : Evaluation) : Prop :=
  s.taskStep est indices blockNumber e k = some e'

/-- The result of a task that is done. -/
def Task.result : Task → Option ArbPath
  | .done r => r
  | _ => none

/-- The results of the tasks, in the order of the indices. -/
def Evaluation.collect (e : Evaluation) (n : Nat) : List ArbPath :=
  (List.range n).filterMap fun k => (e.tasks k).result

/-- `evaluate_paths_parallel` may return `results` and leave `m'`: the tasks ran to their ends in
some order, and the results are sorted by profit. -/
structure Evaluates (s : Searcher) (m : Memory) (indices : List Nat) (blockNumber : UInt64)
    (results : List ArbPath) (m' : Memory) : Prop where
  sorted : results.Pairwise fun a b => b.expectedProfit ≤ a.expectedProfit
  ran : ∃ ks e, Run (s.TaskStep m.estimator indices blockNumber) ⟨m.rateCache, fun _ => .waiting⟩
    ks e ∧ (∀ k < indices.length, ∃ r, e.tasks k = .done r) ∧
      results.Perm (e.collect indices.length) ∧ m' = { m with rateCache := e.cache }

end Searcher

end ArbBot
