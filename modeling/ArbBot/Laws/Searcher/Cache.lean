import ArbBot.Laws.Searcher.Affected
import ArbBot.Laws.Searcher.Evaluate

/-!
# The path-rate cache is not transparent

The cache knows a rate by path hash and block number only, while the rates behind it change with
every update, several times under one number when mempool events are evaluated ahead of their
block. A rate it holds above break-even is never used: the path is evaluated again. A rate it
holds below break-even turns the path down unseen. So an evaluation returns what it would with an
empty cache exactly when every path the cache turns down is below break-even under the current
rates too (`transparent_iff`), whatever history led to the cache and the rates.

The indices of a call come from `get_affected_paths`, which never repeats one
(`selected_getAffectedPaths`).
-/

namespace ArbBot.Searcher

open Lib

/-! ## The indices of a call -/

theorem selected_getAffectedPaths (s : Searcher) (paths : List SwapPath) (metas : List PoolMeta)
    {shuffle : List Nat → List Nat} (hshuffle : ∀ is, (shuffle is).Perm is)
    (pools : List Address) (isMempoolEvent : Bool) :
    ((s.registerPaths paths).registerPoolMeta metas).Selected
      (((s.registerPaths paths).registerPoolMeta metas).getAffectedPaths shuffle pools
        isMempoolEvent) := by
  obtain ⟨-, hall, hindex⟩ := registerPoolMeta_fields metas (s.registerPaths paths)
  have h := selects_getAffectedPaths pools hindex hshuffle isMempoolEvent
  refine ⟨h.nodup, fun i hi => ?_⟩
  obtain ⟨path, hpath, -⟩ := h.sound i hi
  rw [hall]
  exact (List.getElem?_eq_some_iff.mp hpath).1

/-! ## Transparency -/

/-- The evaluation returns the profitable paths under the current rates, and the same ones as with
an empty cache. -/
def Transparent (s : Searcher) (m : Memory) (indices : List Nat) (blockNumber : UInt64) : Prop :=
  ∀ results m', s.Evaluates m indices blockNumber results m' →
    (∀ a, a ∈ results ↔ s.Profitable m.estimator indices blockNumber a) ∧
      ∀ results' m'', s.Evaluates { m with rateCache := .new } indices blockNumber results' m'' →
        ∀ a, a ∈ results ↔ a ∈ results'

variable {s : Searcher} {m : Memory} {indices : List Nat} {blockNumber : UInt64}

theorem turnedDown_iff {c : PathRateCache} {path : SwapPath} :
    turnedDown c path blockNumber = true ↔
      ∃ rate, c.getFresh path.hash blockNumber = some rate ∧ rate < rateScale := by
  unfold turnedDown
  cases c.getFresh path.hash blockNumber <;> simp

/-- A profitable path the cache turns down is missing from the results. -/
theorem not_transparent (hhash : s.DistinctHashes) (hsel : s.Selected indices) {i : Nat}
    (hi : i ∈ indices) {path : SwapPath} (hpath : s.allPaths[i]? = some path)
    (hdown : turnedDown m.rateCache path blockNumber = true)
    (hrate : rateScale ≤ m.estimator.evaluatePath path) :
    ¬ s.Transparent m indices blockNumber := by
  intro h
  obtain ⟨results, m', hev⟩ := s.exists_evaluates hsel.inRange
  have hprofit : s.Profitable m.estimator indices blockNumber _ := ⟨i, hi, path, hpath, hrate, rfl⟩
  have hmem := ((h results m' hev).1 _).mpr hprofit
  have := ((evaluates_mem hhash hsel.nodup hev _).mp hmem).2
  rw [hdown] at this
  cases this

/-- **The cache is transparent exactly when it turns down no path that is profitable now.** -/
theorem transparent_iff (s : Searcher) (m : Memory) (indices : List Nat) (blockNumber : UInt64)
    (hhash : s.DistinctHashes) (hsel : s.Selected indices) :
    s.Transparent m indices blockNumber ↔
      ∀ i ∈ indices, ∀ path, s.allPaths[i]? = some path → ∀ rate,
        m.rateCache.getFresh path.hash blockNumber = some rate → rate < rateScale →
          m.estimator.evaluatePath path < rateScale := by
  constructor
  · intro h i hi path hpath rate hfresh hlow
    by_contra hrate
    exact not_transparent hhash hsel hi hpath (turnedDown_iff.mpr ⟨rate, hfresh, hlow⟩)
      (BitVec.not_lt.mp hrate) h
  · intro hclean results m' hev
    -- what the cache turns down is not profitable, so turning it down changes nothing
    have hdown : ∀ a, s.Profitable m.estimator indices blockNumber a →
        turnedDown m.rateCache a.path blockNumber = false := by
      rintro _ ⟨i, hi, path, hpath, hrate, rfl⟩
      rw [← Bool.not_eq_true, turnedDown_iff]
      rintro ⟨rate, hfresh, hlow⟩
      exact absurd (hclean i hi path hpath rate hfresh hlow) (BitVec.not_lt.mpr hrate)
    have hresults : ∀ a, a ∈ results ↔ s.Profitable m.estimator indices blockNumber a := fun a =>
      (evaluates_mem hhash hsel.nodup hev a).trans (and_iff_left_of_imp (hdown a))
    refine ⟨hresults, fun results' m'' hev' a => ?_⟩
    rw [hresults, evaluates_mem hhash hsel.nodup hev']
    exact (and_iff_left rfl).symm

/-! ## Histories -/

/-- What happens to the shared memory: the market state writes a slot, the searcher updates rates,
the searcher evaluates. -/
inductive Op where
  | write (address : Address) (slot value : U256)
  | update (pools : List Address)
  | evaluate (indices : List Nat) (blockNumber : UInt64)

def HistoryStep (s : Searcher) (quote : V3Quote) (m : Memory) (op : Op) (m' : Memory) : Prop :=
  match op with
  | .write address slot value => m' = { m with db := m.db.updateSlot address slot value }
  | .update pools => m' = s.updateRatesForPools quote m pools
  | .evaluate indices blockNumber => ∃ results, s.Evaluates m indices blockNumber results m'

/-! ### Two events under one number -/

/-- A constant-product pool between two tokens with 18 decimals. -/
def sampleMeta (address token0 token1 : Address) : PoolMeta :=
  ⟨address, token0, token1, 18, 18, false, 30, 0, .uniswapV2⟩

/-- The triangle of three pools. -/
def samplePath : SwapPath where
  steps := [⟨10, 1, 2, .uniswapV2, 30⟩, ⟨11, 2, 3, .uniswapV2, 30⟩, ⟨12, 3, 1, .uniswapV2, 30⟩]
  hash := 77

def sampleSearcher : Searcher :=
  ((new 50000).registerPaths [samplePath]).registerPoolMeta
    [sampleMeta 10 1 2, sampleMeta 11 2 3, sampleMeta 12 1 3]

/-- The reserves slot of a pool that holds `r0` and `r1` thousandths of `10 ^ 21`. -/
def packedReserves (r0 r1 : Nat) : U256 :=
  BitVec.ofNat 256 (r0 * 10 ^ 18 + r1 * 10 ^ 18 * 2 ^ 112)

/-- Balanced pools: the path loses the fees. -/
def balanced : Memory :=
  let db := ((StateDb.empty.updateSlot 10 8 (packedReserves 1000 1000)).updateSlot 11 8
    (packedReserves 1000 1000)).updateSlot 12 8 (packedReserves 1000 1000)
  sampleSearcher.updateRatesForPools .missing ⟨db, .new, .new⟩ [10, 11, 12]

/-- The balanced pools after an evaluation under block 5. -/
def evaluated : Memory :=
  { balanced with
    rateCache := balanced.rateCache.insert 77 (balanced.estimator.evaluatePath samplePath) 5 }

/-- The first pool has moved in favour of the path. -/
def moved : Memory :=
  sampleSearcher.updateRatesForPools .missing
    { evaluated with db := evaluated.db.updateSlot 10 8 (packedReserves 1000 1100) } [10]

theorem sampleSearcher_distinct : sampleSearcher.DistinctHashes :=
  List.nodup_singleton 77

theorem sampleSearcher_selected : sampleSearcher.Selected [0] where
  nodup := List.nodup_singleton 0
  inRange := by decide +kernel

theorem evaluates_balanced : sampleSearcher.Evaluates balanced [0] 5 [] evaluated where
  sorted := .nil
  ran := by
    let e : Evaluation := ⟨balanced.rateCache, fun _ => .waiting⟩
    let e' : Evaluation :=
      { (e.setTask 0 .looked).setTask 0 (.done none) with cache := evaluated.rateCache }
    refine ⟨[0, 0], e', .cons (t := e.setTask 0 .looked) ?_ (.cons ?_ (.nil _)), ?_, ?_, rfl⟩
    · rfl
    · rfl
    · intro k hk
      obtain rfl : k = 0 := by simpa using hk
      exact ⟨none, rfl⟩
    · exact .refl _

/-- A block is evaluated under number 5 and the path loses; a pool moves and its rates are
updated; evaluated under number 5 again, the path is profitable and missing. -/
theorem not_transparent_moved :
    ∃ m, Run (HistoryStep sampleSearcher .missing) ⟨.empty, .new, .new⟩
        [.write 10 8 (packedReserves 1000 1000), .write 11 8 (packedReserves 1000 1000),
          .write 12 8 (packedReserves 1000 1000), .update [10, 11, 12], .evaluate [0] 5,
          .write 10 8 (packedReserves 1000 1100), .update [10]] m ∧
      ¬ sampleSearcher.Transparent m [0] 5 := by
  refine ⟨moved, .cons rfl <| .cons rfl <| .cons rfl <| .cons rfl <|
    .cons ⟨[], evaluates_balanced⟩ <| .cons rfl <| .cons rfl <| .nil _, ?_⟩
  exact not_transparent sampleSearcher_distinct sampleSearcher_selected List.mem_cons_self rfl
    (by decide +kernel) (by decide +kernel)

/-- Before the pool moves, a second evaluation under the same number returns the same. -/
theorem transparent_iff_evaluated :
    sampleSearcher.Transparent evaluated [0] 5 ↔
      ∀ i ∈ [0], ∀ path, sampleSearcher.allPaths[i]? = some path → ∀ rate,
        evaluated.rateCache.getFresh path.hash 5 = some rate → rate < rateScale →
          evaluated.estimator.evaluatePath path < rateScale :=
  transparent_iff sampleSearcher evaluated [0] 5 sampleSearcher_distinct sampleSearcher_selected

end ArbBot.Searcher
