import ArbBot.Laws.Searcher.Cache
import ArbBot.Lib.Rows

/-!
# Rates are a function of the current state

The rates of a pool are a row of the estimator. Every update of `rates.rs` reads and writes the
row of its pool only, and `update_rates_for_pools` drops the row before it updates it. So the row
it leaves is the one it would leave in an empty estimator, whatever stood there before, and the
pools can be listed in any order and more than once (`updateRates_fresh`).
-/

namespace ArbBot

open Lib

namespace RateEstimator

/-- The rates of both directions as the row of a pool. -/
def rows : Rows RateEstimator Address (Bool → Option U256) (Address → Option U256) where
  row est := est.rates
  rest est := est.tokenWethPrices
  setRow est pool row := { est with rates := fun p => if p = pool then row else est.rates p }
  row_setRow _ _ _ _ := rfl
  rest_setRow _ _ _ := rfl
  ext := by
    rintro ⟨rates, prices⟩ ⟨rates', prices'⟩ hrest hrow
    cases hrest
    cases (funext hrow : rates = rates')
    rfl

variable {pool : Address} {db : StateDb}

theorem onRow_insert (zeroForOne : Bool) (rate : U256) :
    rows.OnRow pool fun est => est.insert pool zeroForOne rate := by
  refine ⟨fun row d => if d = zeroForOne then some rate else row d, fun est => ?_⟩
  refine rows.ext _ _ rfl fun p => funext fun d => ?_
  show (if p = pool ∧ d = zeroForOne then some rate else est.rates p d) =
    (if p = pool then fun d => if d = zeroForOne then some rate else est.rates pool d
      else est.rates p) d
  by_cases hp : p = pool
  · subst hp
    simp only [true_and, if_true]
  · simp only [hp, false_and, if_false]

theorem invalidatePool_eq (est : RateEstimator) (pool : Address) :
    est.invalidatePool pool = rows.setRow est pool fun _ => none := by
  refine rows.ext _ _ rfl fun p => funext fun d => ?_
  show (if p = pool then none else est.rates p d) =
    (if p = pool then fun _ => none else est.rates p) d
  split <;> rfl

/-- Two entries inserted one after the other. -/
theorem onRow_insert_both (rate rate' : U256) :
    rows.OnRow pool fun est => (est.insert pool true rate).insert pool false rate' :=
  (onRow_insert true rate).comp (onRow_insert false rate')

theorem onRow_insertQuote (zeroForOne : Bool) (outDecimals : UInt8) (quoted : Option U256) :
    rows.OnRow pool fun est => est.insertQuote pool zeroForOne outDecimals quoted := by
  cases quoted with
  | none => exact .refl
  | some out =>
    by_cases hout : out = 0
    · simpa only [insertQuote, if_pos hout] using Rows.OnRow.refl
    · simpa only [insertQuote, if_neg hout] using onRow_insert zeroForOne _

theorem onRow_insertSpot (zeroForOne : Bool) (outDecimals : UInt8) (fee : UInt32)
    (rawOut : Option U256) :
    rows.OnRow pool fun est => est.insertSpot pool zeroForOne outDecimals fee rawOut := by
  cases rawOut with
  | none => exact .refl
  | some out =>
    dsimp only [insertSpot]
    split
    · exact .refl
    · exact onRow_insert zeroForOne _

theorem onRow_updateV2Rate (decimals0 decimals1 : UInt8) (feeFactor : UInt64) :
    rows.OnRow pool fun est => est.updateV2Rate db pool decimals0 decimals1 feeFactor := by
  unfold updateV2Rate
  cases db.readV2Reserves pool with
  | none => exact .refl
  | some reserves => exact (onRow_insert_both _ _).unless

theorem onRow_updateAerodromeRate (decimals0 decimals1 : UInt8) (stable : Bool) (feeBps : UInt64) :
    rows.OnRow pool fun est =>
      est.updateAerodromeRate db pool decimals0 decimals1 stable feeBps := by
  unfold updateAerodromeRate
  cases db.readV2Reserves pool with
  | none => exact .refl
  | some reserves => exact (onRow_insert_both _ _).unless

theorem onRow_updateV3SpotRate (pool : Address) (db : StateDb) (decimals0 decimals1 : UInt8)
    (fee : UInt32) :
    rows.OnRow pool fun est => est.updateV3SpotRate db pool decimals0 decimals1 fee := by
  unfold updateV3SpotRate
  cases db.readV3Slot0 pool with
  | none => exact .refl
  | some slot0 => exact ((onRow_insertSpot true ..).comp (onRow_insertSpot false ..)).unless

theorem onRow_updateV3Rate (quote : V3Quote) (db : StateDb) (decimals0 decimals1 : UInt8)
    (fee : UInt32) (tickSpacing : Int32) :
    rows.OnRow pool fun est =>
      est.updateV3Rate quote db pool decimals0 decimals1 fee tickSpacing :=
  (onRow_insertQuote true ..).comp (onRow_insertQuote false ..)

end RateEstimator

namespace Searcher

open RateEstimator

/-- The update of a pool reads and writes the row of that pool only. -/
theorem onRow_updatePool (quote : V3Quote) (db : StateDb) (pool : Address) (m : PoolMeta) :
    rows.OnRow pool fun est => updatePool quote db pool m est := by
  unfold updatePool
  by_cases hv3 : m.protocol.isV3
  · simp only [if_pos hv3]
    have hunless : ∀ {f : RateEstimator → RateEstimator}, rows.OnRow pool f → rows.OnRow pool
        fun est => if (est.rates pool true).isSome then est else f est := fun hf =>
      Rows.OnRow.branch (c := fun row => (row true).isSome) .refl hf
    have hspot := onRow_updateV3SpotRate pool db m.decimals0 m.decimals1 m.fee
    have hticks := hspot.comp
      (hunless (onRow_updateV3Rate quote db m.decimals0 m.decimals1 m.fee m.tickSpacing))
    exact hticks.comp (hunless (onRow_insert_both _ _))
  by_cases haerodrome : m.protocol = .aerodrome
  · simpa only [if_neg hv3, if_pos haerodrome] using onRow_updateAerodromeRate _ _ _ _
  by_cases hexotic : m.protocol.isExotic
  · simp only [if_neg hv3, if_neg haerodrome, if_pos hexotic]
    exact onRow_insert_both rateScale rateScale
  · simpa only [if_neg hv3, if_neg haerodrome, if_neg hexotic] using onRow_updateV2Rate _ _ _

/-- The row an update leaves in an empty estimator. -/
def freshRow (quote : V3Quote) (db : StateDb) (pool : Address) (m : PoolMeta) :
    Bool → Option U256 :=
  (updatePool quote db pool m (RateEstimator.new.invalidatePool pool)).rates pool

/-- The rows of the pools with metadata. -/
def freshRows (s : Searcher) (quote : V3Quote) (db : StateDb) (pool : Address) :
    Option (Bool → Option U256) :=
  (s.poolMeta pool).map (freshRow quote db pool)

/-- Behind the invalidation, an update leaves the row it leaves in an empty estimator. -/
theorem updatePool_invalidatePool (quote : V3Quote) (db : StateDb) (pool : Address) (m : PoolMeta)
    (est : RateEstimator) : updatePool quote db pool m (est.invalidatePool pool) =
      rows.setRow est pool (freshRow quote db pool m) := by
  obtain ⟨row, hrow⟩ := (onRow_updatePool quote db pool m).exists_row fun _ => none
  have hset : ∀ est : RateEstimator,
      updatePool quote db pool m (est.invalidatePool pool) = rows.setRow est pool row := fun est => by
    rw [invalidatePool_eq]
    exact hrow est
  have hfresh : freshRow quote db pool m = row := by
    rw [freshRow, hset]
    exact (rows.row_setRow ..).trans (if_pos rfl)
  rw [hset, hfresh]

/-- The update of rates sets the row of every listed pool with metadata afresh. -/
theorem updateRates_eq_refresh (s : Searcher) (quote : V3Quote) (db : StateDb)
    (est : RateEstimator) (pools : List Address) :
    s.updateRates quote db est pools = rows.refresh (s.freshRows quote db) pools est := by
  unfold updateRates Rows.refresh
  congr 1
  funext est pool
  unfold freshRows
  cases s.poolMeta pool with
  | none => rfl
  | some m => exact updatePool_invalidatePool quote db pool m est

/-- **The rates are a function of the current state.** In any two estimators, updates of the same
pools in any order leave the same entries for every pool with metadata; they leave every other
entry alone; and in one estimator they leave the same estimator. -/
theorem updateRates_fresh (s : Searcher) (quote : V3Quote) (db : StateDb)
    (est est' : RateEstimator) (pools pools' : List Address) (h : ∀ p, p ∈ pools ↔ p ∈ pools') :
    (∀ pool ∈ pools, (s.poolMeta pool).isSome →
        (s.updateRates quote db est pools).rates pool =
          (s.updateRates quote db est' pools').rates pool) ∧
      (∀ pool, ¬ (pool ∈ pools ∧ (s.poolMeta pool).isSome) →
        (s.updateRates quote db est pools).rates pool = est.rates pool) ∧
      s.updateRates quote db est pools = s.updateRates quote db est pools' := by
  have hisSome : ∀ pool, (s.freshRows quote db pool).isSome = (s.poolMeta pool).isSome :=
    fun pool => Option.isSome_map
  simp only [updateRates_eq_refresh]
  refine ⟨fun pool hpool hmeta => ?_, fun pool hpool => ?_, Rows.refresh_congr h est⟩
  · obtain ⟨row, hrow⟩ := Option.isSome_iff_exists.mp ((hisSome pool).trans hmeta)
    exact (Rows.row_refresh_of_mem (L := rows) hpool hrow est).trans
      (Rows.row_refresh_of_mem (L := rows) ((h pool).mp hpool) hrow est').symm
  · refine Rows.row_refresh_of_not (L := rows) (fun hmem => hpool ⟨hmem.1, ?_⟩) est
    exact (hisSome pool).symm.trans hmem.2

/-- Two pools, listed again and the other way round, in an estimator with rates and in an empty
one. -/
theorem updateRates_fresh_pair :
    (∀ pool ∈ [10, 11], (sampleSearcher.poolMeta pool).isSome →
        (sampleSearcher.updateRates .missing balanced.db balanced.estimator [10, 11]).rates pool =
          (sampleSearcher.updateRates .missing balanced.db .new [11, 10, 11]).rates pool) ∧
      (∀ pool, ¬ (pool ∈ [10, 11] ∧ (sampleSearcher.poolMeta pool).isSome) →
        (sampleSearcher.updateRates .missing balanced.db balanced.estimator [10, 11]).rates pool =
          balanced.estimator.rates pool) ∧
      sampleSearcher.updateRates .missing balanced.db balanced.estimator [10, 11] =
        sampleSearcher.updateRates .missing balanced.db balanced.estimator [11, 10, 11] :=
  updateRates_fresh sampleSearcher .missing balanced.db balanced.estimator .new [10, 11]
    [11, 10, 11] fun p => by simp only [List.mem_cons, List.not_mem_nil]; tauto

end Searcher

end ArbBot
