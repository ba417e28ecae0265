import ArbBot.Calculation.V3
import ArbBot.Laws.MarketFeed.Blocks
import ArbBot.Laws.Searcher.Rates
import ArbBot.Lib.Derived

/-!
# Rates follow the database

The rates of a pool are computed from its own slots of the database, so the estimator is a table of
rows derived from it. A pool whose row is not the one the current database gives is named in an
event still on its way to the searcher, or its slots were changed without one, or its rates are still
those of the seed (`rates_follow`). So the searcher values a path of other pools as the current
database does.
-/

namespace ArbBot

open Lib

/-! ## The rates of a pool are read off its own slots -/

namespace BlockStateDb

variable {db db' : StateDb} {pool : Address} {tracked pancake : Finset Address}

theorem readV3Tick_congr (keccak : Keccak) (h : db.slot pool = db'.slot pool) :
    readV3Tick keccak ⟨db, tracked, pancake⟩ pool =
      readV3Tick keccak ⟨db', tracked, pancake⟩ pool := by
  funext tick
  unfold readV3Tick
  rw [h]

theorem readV3TickBitmap_congr (keccak : Keccak) (h : db.slot pool = db'.slot pool) :
    readV3TickBitmap keccak ⟨db, tracked, pancake⟩ pool =
      readV3TickBitmap keccak ⟨db', tracked, pancake⟩ pool := by
  funext wordPos
  unfold readV3TickBitmap
  rw [h]

end BlockStateDb

/-- A quote that reads no other slots than those of its pool. -/
def V3Quote.Local (quote : V3Quote) : Prop :=
  ∀ db db' pool, db.slot pool = db'.slot pool → quote db pool = quote db' pool

namespace V3

variable {db db' : StateDb} {pool : Address} {tracked pancake : Finset Address}

theorem walkStep_congr (math : V3Math) (keccak : Keccak) (h : db.slot pool = db'.slot pool)
    (zeroForOne : Bool) (fee : UInt32) (tickSpacing : Int) :
    walkStep math keccak ⟨db, tracked, pancake⟩ pool zeroForOne fee tickSpacing =
      walkStep math keccak ⟨db', tracked, pancake⟩ pool zeroForOne fee tickSpacing := by
  funext w
  unfold walkStep hop land reachTick findNextInitializedTick readWordOf
  rw [BlockStateDb.readV3Tick_congr keccak h, BlockStateDb.readV3TickBitmap_congr keccak h]

theorem walk_congr (math : V3Math) (keccak : Keccak) (h : db.slot pool = db'.slot pool)
    (zeroForOne : Bool) (fee : UInt32) (tickSpacing : Int) (n : Nat) :
    walk math keccak ⟨db, tracked, pancake⟩ pool zeroForOne fee tickSpacing n =
      walk math keccak ⟨db', tracked, pancake⟩ pool zeroForOne fee tickSpacing n := by
  induction n with
  | zero => rfl
  | succ n ih =>
    funext w
    unfold walk
    rw [walkStep_congr math keccak h, ih]

theorem startWalk_congr (h : db.slot pool = db'.slot pool) :
    startWalk ⟨db, tracked, pancake⟩ pool = startWalk ⟨db', tracked, pancake⟩ pool := by
  have hslot0 : db.readV3Slot0 pool = db'.readV3Slot0 pool := by
    unfold StateDb.readV3Slot0
    rw [h]
  have hliquidity : db.readV3Liquidity pool = db'.readV3Liquidity pool := by
    unfold StateDb.readV3Liquidity StateDb.low128
    rw [h]
  funext amountIn
  unfold startWalk
  simp only [hslot0, hliquidity]

end V3

/-- The quote of the estimator reads no other slots. -/
theorem V3Math.quote_local (math : V3Math) (keccak : Keccak) (tracked pancake : Finset Address) :
    (math.quote keccak tracked pancake).Local := by
  intro db db' pool h
  funext amountIn zeroForOne fee tickSpacing
  unfold V3Math.quote getAmountOutV3
  rw [V3.startWalk_congr h, V3.walk_congr math keccak h]

namespace Searcher

variable {quote : V3Quote} {db db' : StateDb} {pool : Address}

/-- The update of a pool reads its own slots. -/
theorem updatePool_congr (hlocal : quote.Local) (h : db.slot pool = db'.slot pool) (m : PoolMeta)
    (est : RateEstimator) : updatePool quote db pool m est = updatePool quote db' pool m est := by
  have hreserves : db.readV2Reserves pool = db'.readV2Reserves pool := by
    unfold StateDb.readV2Reserves
    rw [h]
  have hslot0 : db.readV3Slot0 pool = db'.readV3Slot0 pool := by
    unfold StateDb.readV3Slot0
    rw [h]
  unfold updatePool RateEstimator.updateV3SpotRate RateEstimator.updateV3Rate
    RateEstimator.updateAerodromeRate RateEstimator.updateV2Rate
  simp only [hreserves, hslot0, hlocal db db' pool h]

/-- The estimator as rows derived from the database. -/
def derived (s : Searcher) (quote : V3Quote) (hlocal : quote.Local) :
    Derived StateDb Address (U256 → Option U256) (Bool → Option U256) where
  view := StateDb.slot
  fresh := s.freshRows quote
  fresh_congr db db' pool h := by
    unfold freshRows
    congr 1
    funext m
    unfold freshRow
    rw [updatePool_congr hlocal h]

/-- The steps of the searcher: one that takes an event refreshes the rows of its pools, and one that
takes none leaves the estimator and the events alone. -/
theorem work_cases {s : Searcher} {w w' : Loop} (hwork : Work s quote w w') :
    (∃ event rest pc, w.channel = event :: rest ∧ w' = w.take s quote event rest pc) ∨
      w'.memory.estimator = w.memory.estimator ∧ w'.channel = w.channel ∧
        ∀ pools, .received pools ∉ w'.log.drop w.log.length := by
  cases hwork with
  | recv _ hchannel => exact .inl ⟨_, _, _, hchannel, rfl⟩
  | preDrainTake _ hchannel => exact .inl ⟨_, _, _, hchannel, rfl⟩
  | postDrainTake _ hchannel => exact .inl ⟨_, _, _, hchannel, rfl⟩
  | preDrainEnd => exact .inr ⟨rfl, rfl, by simp⟩
  | evaluate _ hevaluates =>
    obtain ⟨ks, e, -, -, -, rfl⟩ := hevaluates.ran
    exact .inr ⟨rfl, rfl, by simp⟩
  | _ => exact .inr ⟨rfl, rfl, by simp⟩

theorem not_work_of_stopped {s : Searcher} {w w' : Loop} (hstop : w.pc = .stopped) :
    ¬ Work s quote w w' := by
  intro hwork
  cases hwork <;> simp_all only [reduceCtorEq]

end Searcher

/-! ## What is on its way -/

namespace MarketFeed

open MarketState Tracing

variable {s : Searcher} {quote : V3Quote} {capacity : Nat} {f f' : Feed}

/-- The pools of the event the worker is about to send. -/
def Pc.announcing : Pc → Set Address
  | .sending event => {pool | pool ∈ event.touchedPools}
  | _ => ∅

/-- The pools of the events in the channel. -/
def queued (channel : List PoolsTouched) : Set Address :=
  {pool | ∃ event ∈ channel, pool ∈ event.touchedPools}

/-- The pools whose rates may be behind the database. -/
def Feed.behind (f : Feed) : Set Address := f.unannounced ∪ (queued f.loop.channel ∪ f.pc.announcing)

/-- Every other pool has the rates the database gives. -/
def Follows (s : Searcher) (hlocal : quote.Local) (f : Feed) : Prop :=
  (s.derived quote hlocal).UpToDate RateEstimator.rows f.loop.memory.db f.loop.memory.estimator
    f.behind

/-- A block changes no pools but those of its message. -/
theorem changed_subset_message (db : BlockStateDb) (block : Block) :
    changed db.toStateDb (processBlock db block).1.toStateDb ⊆
      (((processBlock db block).2.map Pc.sending).getD .streaming).announcing := by
  intro pool hpool
  have hspec := message_spec db block
  have hanswered : ∃ k, (answered db.trackedPools block.node (pool, k)).isSome := by
    by_contra hnone
    push Not at hnone
    apply hpool
    funext k
    have hslot := slot_processBlock_eq db block (pool, k)
    rw [Option.not_isSome_iff_eq_none.mp (hnone k)] at hslot
    exact hslot.symm
  cases hmessage : (processBlock db block).2 with
  | none =>
    rw [hmessage] at hspec
    obtain ⟨k, hk⟩ := hanswered
    rw [hspec] at hk
    cases hk
  | some event =>
    rw [hmessage] at hspec
    exact (hspec.2.2 pool).mpr hanswered

section

variable (hlocal : quote.Local)

/-- A step that leaves the searcher's memory alone, and loses no pool that is behind. -/
theorem Follows.keep {hlocal : quote.Local} (h : Follows s hlocal f)
    (hmemory : f'.loop.memory = f.loop.memory) (hbehind : f.behind ⊆ f'.behind) :
    Follows s hlocal f' := by
  unfold Follows
  rw [hmemory]
  exact h.mono hbehind

/-- A step that writes to the database. -/
theorem Follows.write {hlocal : quote.Local} (h : Follows s hlocal f)
    (hestimator : f'.loop.memory.estimator = f.loop.memory.estimator)
    (hbehind : f.behind ⊆ f'.behind)
    (hchanged : changed f.loop.memory.db f'.loop.memory.db ⊆ f'.behind) : Follows s hlocal f' := by
  unfold Follows
  rw [hestimator]
  exact Derived.UpToDate.write h hbehind fun pool hpool => hchanged hpool

/-- A step that rates some pools anew. -/
theorem Follows.refresh {hlocal : quote.Local} (h : Follows s hlocal f) {pools : List Address}
    (hmemory : f'.loop.memory = s.updateRatesForPools quote f.loop.memory pools)
    (hbehind : ∀ pool ∈ f.behind, pool ∉ pools → pool ∈ f'.behind) : Follows s hlocal f' := by
  have hrefresh : f'.loop.memory.estimator =
      RateEstimator.rows.refresh (s.freshRows quote f.loop.memory.db) pools
        f.loop.memory.estimator := by
    rw [hmemory]
    exact Searcher.updateRates_eq_refresh s quote f.loop.memory.db _ _
  have hdb : f'.loop.memory.db = f.loop.memory.db := by
    rw [hmemory]
    rfl
  unfold Follows
  rw [hrefresh, hdb]
  exact Derived.UpToDate.refresh h hbehind

theorem queued_append (channel : List PoolsTouched) (event : PoolsTouched) :
    queued (channel ++ [event]) = queued channel ∪ {pool | pool ∈ event.touchedPools} := by
  ext pool
  simp [queued, or_and_right, exists_or]

/-- A step of the searcher. -/
theorem Follows.search {hlocal : quote.Local} (h : Follows s hlocal f) {loop : Searcher.Loop}
    (hwork : Searcher.Work s quote f.loop loop) :
    Follows s hlocal { f with
      loop := loop
      unannounced := f.unannounced \ takenBetween f.loop.log loop.log } := by
  have hdb := Searcher.work_db hwork
  rcases Searcher.work_cases hwork with
    ⟨event, rest, pc, hchannel, rfl⟩ | ⟨hestimator, hchannel, hlog⟩
  · refine h.refresh rfl fun pool hbehind hpool => ?_
    rcases hbehind with hunannounced | ⟨e, he, hmem⟩ | hannouncing
    · refine .inl ⟨hunannounced, ?_⟩
      rintro ⟨pools, htaken, hmem⟩
      have hlast : Searcher.Entry.received pools ∈ [Searcher.Entry.received event.touchedPools] := by
        simpa [Searcher.Loop.take] using htaken
      obtain rfl := Searcher.Entry.received.inj (List.mem_singleton.mp hlast)
      exact hpool hmem
    · rw [hchannel] at he
      rcases List.mem_cons.mp he with rfl | hrest
      · exact absurd hmem hpool
      · exact .inr (.inl ⟨e, hrest, hmem⟩)
    · exact .inr (.inr hannouncing)
  · unfold Follows
    show Derived.UpToDate RateEstimator.rows _ loop.memory.db loop.memory.estimator _
    rw [hdb, hestimator]
    refine Derived.UpToDate.mono h ?_
    rintro pool (hunannounced | hqueued | hannouncing)
    · refine .inl ⟨hunannounced, ?_⟩
      rintro ⟨pools, htaken, -⟩
      exact hlog pools htaken
    · refine .inr (.inl ?_)
      rw [hchannel]
      exact hqueued
    · exact .inr (.inr hannouncing)

/-- A searcher that has stopped stays so. -/
theorem stopped_step {i : Label} (hstop : f.loop.pc = .stopped)
    (hstep : Step s quote capacity f i f') : f'.loop.pc = .stopped := by
  cases hstep with
  | search _ hwork => exact absurd hwork (Searcher.not_work_of_stopped hstop)
  | _ => exact hstop

/-- While the searcher runs, every step keeps the rates of the pools that are not behind. -/
theorem follows_step {hlocal : quote.Local} {i : Label} (h : Follows s hlocal f)
    (hstep : Step s quote capacity f i f') : f'.loop.pc = .stopped ∨ Follows s hlocal f' := by
  cases hstep with
  | seedSkip _ => exact .inr (h.keep rfl (Set.Subset.refl _))
  | @seedRates order _ _ _ =>
    right
    refine Derived.UpToDate.set h (Set.union_subset_union_left _ Set.subset_union_left) ?_
    intro pool hpool
    exact Searcher.rates_seedPassthroughs s (fun hmem => hpool (.inl (.inr hmem))) _
  | seedChunk _ =>
    right
    refine h.write rfl ?_ ?_
    · exact Set.union_subset_union_left _ Set.subset_union_left
    · exact fun pool hpool => .inl (.inr hpool)
  | @seeded pools _ =>
    right
    refine h.refresh rfl fun pool hbehind hpool => ?_
    rcases hbehind with hunannounced | hqueued
    · exact .inl ⟨hunannounced, hpool⟩
    · exact .inr hqueued
  | @catchUp block rest hpc =>
    right
    refine h.write rfl ?_ ?_
    · unfold Feed.behind
      rw [hpc]
      exact Set.union_subset_union Set.subset_union_left (Set.Subset.refl _)
    · exact fun pool hpool => .inl (.inr hpool)
  | caughtUp hpc =>
    right
    refine h.keep rfl ?_
    unfold Feed.behind
    rw [hpc]
    exact Set.Subset.refl _
  | @block block _ _ _ hpc =>
    right
    refine h.write rfl ?_ ?_
    · unfold Feed.behind
      rw [hpc]
      exact Set.union_subset_union_right _
        (Set.union_subset_union_right _ (Set.empty_subset _))
    · exact fun pool hpool => .inr (.inr (changed_subset_message f.db block hpool))
  | skip _ => exact .inr h
  | send hpc _ _ =>
    right
    refine h.keep rfl ?_
    unfold Feed.behind
    rw [hpc, queued_append]
    rintro pool (hunannounced | hqueued | hannouncing)
    · exact .inl hunannounced
    · exact .inr (.inl (.inl hqueued))
    · exact .inr (.inl (.inr hannouncing))
  | sendClosed _ hstop => exact .inl hstop
  | closed hpc =>
    right
    refine h.keep rfl ?_
    unfold Feed.behind
    rw [hpc]
    exact Set.Subset.refl _
  | disconnect hpc => exact .inr (h.keep rfl (Set.Subset.refl _))
  | mempool _ _ _ =>
    right
    refine h.keep rfl ?_
    unfold Feed.behind
    rw [queued_append]
    rintro pool (hunannounced | hqueued | hannouncing)
    · exact .inl hunannounced
    · exact .inr (.inl (.inl hqueued))
    · exact .inr (.inr hannouncing)
  | search _ hwork => exact .inr (h.search hwork)
  | writeBack =>
    right
    refine h.write rfl ?_ ?_
    · exact Set.union_subset_union Set.subset_union_left (Set.Subset.refl _)
    · exact fun pool hpool => .inl (.inr hpool)

theorem follows_run {hlocal : quote.Local} {is : List Label}
    (hrun : Run (Step s quote capacity) f is f') (h : Follows s hlocal f) :
    f'.loop.pc = .stopped ∨ Follows s hlocal f' := by
  let inv : Feed → Prop := fun f => f.loop.pc = .stopped ∨ Follows s hlocal f
  have hkeep (f : Feed) (i : Label) (f' : Feed) (h : inv f)
      (hstep : Step s quote capacity f i f') : inv f' := by
    rcases h with hstop | hfollows
    · exact .inl (stopped_step hstop hstep)
    · exact follows_step hfollows hstep
  have hstart : inv f := .inr h
  have hend : inv f' := hrun.invariant hkeep hstart
  exact hend

/-! ## Paths -/

/-- Two estimators that agree on the pools of a path value it alike. -/
theorem evaluateSteps_congr {est est' : RateEstimator} {steps : List SwapStep}
    (h : ∀ step ∈ steps, est.rates step.poolAddress = est'.rates step.poolAddress)
    (cumulative : U256) :
    est.evaluateSteps steps cumulative = est'.evaluateSteps steps cumulative := by
  induction steps generalizing cumulative with
  | nil => rfl
  | cons step steps ih =>
    unfold RateEstimator.evaluateSteps
    rw [h step List.mem_cons_self]
    simp only [ih fun step hstep => h step (List.mem_cons_of_mem _ hstep)]

/-- The value the current database gives a path: that of an estimator with nothing in it but the
rates of the path's pools. -/
def Feed.valueOf (s : Searcher) (quote : V3Quote) (f : Feed) (path : SwapPath) : U256 :=
  (s.updateRates quote f.loop.memory.db .new (path.steps.map (·.poolAddress))).evaluatePath path

end

section

variable {math : V3Math} {keccak : Keccak}

/-- **The rates follow the database.** After any run of the worker, the searcher, the mempool
listener and the simulators, as long as the searcher has not stopped: a pool with metadata has the
rates the current database gives, unless an event that names it is still to be taken, or the
database was changed without one or the seed rated it; and a path of such pools is valued as the
current database does. -/
theorem rates_follow {is : List Label}
    (hstart : ∀ pool m, s.poolMeta pool = some m → pool ∉ f.unannounced →
      f.loop.memory.estimator.rates pool =
        Searcher.freshRow (math.quote keccak f.trackedPools f.pancakeV3Pools) f.loop.memory.db pool m)
    (hrun : Run (Step s (math.quote keccak f.trackedPools f.pancakeV3Pools) capacity) f is f')
    (hrunning : f'.loop.pc ≠ .stopped) :
    (∀ pool m, s.poolMeta pool = some m → pool ∉ f'.behind →
      f'.loop.memory.estimator.rates pool =
        Searcher.freshRow (math.quote keccak f.trackedPools f.pancakeV3Pools) f'.loop.memory.db
          pool m) ∧
    ∀ path : SwapPath, (∀ step ∈ path.steps, (s.poolMeta step.poolAddress).isSome ∧
        step.poolAddress ∉ f'.behind) →
      f'.loop.memory.estimator.evaluatePath path =
        f'.valueOf s (math.quote keccak f.trackedPools f.pancakeV3Pools) path := by
  have hlocal := math.quote_local keccak f.trackedPools f.pancakeV3Pools
  have hfollows : Follows s hlocal f := by
    intro pool hpool row hrow
    obtain ⟨m, hmeta, rfl⟩ := Option.map_eq_some_iff.mp hrow
    exact hstart pool m hmeta fun h => hpool (.inl h)
  have hrates : ∀ pool m, s.poolMeta pool = some m → pool ∉ f'.behind →
      f'.loop.memory.estimator.rates pool = Searcher.freshRow _ f'.loop.memory.db pool m :=
    fun pool m hmeta hpool =>
      ((follows_run hrun hfollows).resolve_left hrunning) pool hpool _
        (Option.map_eq_some_iff.mpr ⟨m, hmeta, rfl⟩)
  refine ⟨hrates, fun path hpath => evaluateSteps_congr (fun step hstep => ?_) _⟩
  obtain ⟨hsome, hbehind⟩ := hpath step hstep
  obtain ⟨m, hmeta⟩ := Option.isSome_iff_exists.mp hsome
  rw [hrates step.poolAddress m hmeta hbehind, Searcher.updateRates_eq_refresh]
  refine (Rows.row_refresh_of_mem (L := RateEstimator.rows) (List.mem_map.mpr ⟨step, hstep, rfl⟩)
    ?_ _).symm
  exact Option.map_eq_some_iff.mpr ⟨m, hmeta, rfl⟩

/-! ### A swap that reaches the searcher -/

def metaNine : PoolMeta := ⟨9, 1, 2, 18, 18, true, 3000, 60, .uniswapV3⟩

def searcherNine : Searcher := (Searcher.new 1).registerPoolMeta [metaNine]

/-- No tick has a price. -/
def noTicks : V3Math := ⟨fun _ => none, fun _ => none, fun _ _ _ _ _ => none⟩

/-- Pool 9 has a price, and the searcher has not been told. -/
def untoldFeed : Feed :=
  .start ⟨(sampleDb ∅).toStateDb, .new, .new⟩ {9} ∅ ⟨0, 0, 0, 6, 50, 0, 0⟩ 0 none
    (fun _ => sampleBlock.node) {9}

theorem message_sampleBlock :
    (processBlock untoldFeed.db sampleBlock).2 = some ⟨100, [9]⟩ := by
  decide

theorem poolMeta_searcherNine {pool : Address} (hpool : pool ≠ 9) :
    searcherNine.poolMeta pool = none := if_neg hpool

theorem untoldFeed_run :
    ∃ f, Run (Step searcherNine (noTicks.quote (fun _ => 0) {9} ∅) 1) untoldFeed
      [.seedRates [9], .seeded, .caughtUp, .block sampleBlock 0 0 0, .send, .search] f ∧
        f.loop.log = [.received [9]] ∧ f.loop.pc ≠ .stopped := by
  have horder : ∀ pool, pool ∈ [9] ↔ (searcherNine.poolMeta pool).isSome := fun pool => by
    by_cases hpool : pool = 9
    · subst hpool
      decide
    · rw [poolMeta_searcherNine hpool]
      exact iff_of_false (fun h => hpool (List.mem_singleton.mp h)) (by decide)
  have hsending : (((processBlock untoldFeed.db sampleBlock).2.map Pc.sending).getD .streaming) =
      .sending ⟨100, [9]⟩ := by
    rw [message_sampleBlock]
    rfl
  refine ⟨_, .cons (.seedRates rfl horder (by decide)) <| .cons (.seeded rfl) <|
    .cons (.caughtUp rfl) <| .cons (.block rfl) <| .cons (.send hsending nofun Nat.zero_lt_one) <|
    .cons (.search rfl (.recv rfl rfl)) (.nil _), rfl, nofun⟩

theorem rates_follow_untoldFeed :
    ∃ f : Feed, f.loop.log = [.received [9]] ∧
      (∀ pool m, searcherNine.poolMeta pool = some m → pool ∉ f.behind →
        f.loop.memory.estimator.rates pool =
          Searcher.freshRow (noTicks.quote (fun _ => 0) {9} ∅) f.loop.memory.db pool m) ∧
      ∀ path : SwapPath, (∀ step ∈ path.steps, (searcherNine.poolMeta step.poolAddress).isSome ∧
          step.poolAddress ∉ f.behind) →
        f.loop.memory.estimator.evaluatePath path =
          f.valueOf searcherNine (noTicks.quote (fun _ => 0) {9} ∅) path := by
  obtain ⟨f, hrun, hlog, hrunning⟩ := untoldFeed_run
  refine ⟨f, hlog, rates_follow (f := untoldFeed) ?_ hrun hrunning⟩
  intro pool m hmeta hpool
  have hnine : pool = 9 := by
    by_contra hne
    rw [poolMeta_searcherNine hne] at hmeta
    cases hmeta
  exact absurd hnine hpool

end

end MarketFeed

end ArbBot
