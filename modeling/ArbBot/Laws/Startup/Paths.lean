import ArbBot.Laws.PathBuilder.Emission
import ArbBot.Laws.Pipeline.Provenance
import ArbBot.Laws.Startup.FilterCache

/-!
# From the configuration to the sender

Each stage of the startup hands on pools of the stage before, and each stage of the pipeline paths of
the stage before. So what the configuration, the filter's cache and the list of traded tokens say of a
pool or a token holds of every path the transaction sender takes (`taken_vetted`).
-/

namespace ArbBot.Startup

open Lib Accounts PathBuilder

/-! ## Pools -/

theorem mem_dropBlacklisted {blacklisted : Finset Address} {pools : List RawPool} {pool : RawPool} :
    pool ∈ dropBlacklisted blacklisted pools ↔
      pool ∈ pools ∧ pool.token0 ∉ blacklisted ∧ pool.token1 ∉ blacklisted := by
  unfold dropBlacklisted
  split
  · rename_i hempty
    simp [hempty]
  · rw [List.mem_filter, decide_eq_true_iff]

/-- The tokens that are allowed, if the list of them was fetched and has any. -/
def allowedTokens (gecko : Option (List String)) : Option (Finset Address) :=
  gecko.bind fun tokens =>
    if geckoToAddressSet tokens = ∅ then none else some (geckoToAddressSet tokens)

theorem keepAllowed_eq (gecko : Option (List String)) (pools : List RawPool) :
    keepAllowed gecko pools =
      match allowedTokens gecko with
      | none => pools
      | some allowed => pools.filter fun pool => pool.token0 ∈ allowed ∧ pool.token1 ∈ allowed := by
  unfold keepAllowed allowedTokens
  cases gecko with
  | none => rfl
  | some tokens =>
    rw [Option.bind_some]
    by_cases hempty : geckoToAddressSet tokens = ∅
    · simp [hempty]
    · simp [hempty]

theorem mem_of_mem_keepAllowed {gecko : Option (List String)} {pools : List RawPool}
    {pool : RawPool} (h : pool ∈ keepAllowed gecko pools) :
    pool ∈ pools ∧ ∀ allowed, allowedTokens gecko = some allowed →
      pool.token0 ∈ allowed ∧ pool.token1 ∈ allowed := by
  rw [keepAllowed_eq] at h
  cases hallowed : allowedTokens gecko with
  | none =>
    rw [hallowed] at h
    exact ⟨h, nofun⟩
  | some allowed =>
    rw [hallowed] at h
    obtain ⟨hmem, hin⟩ := List.mem_filter.mp h
    refine ⟨hmem, fun other hother => ?_⟩
    cases hother
    exact of_decide_eq_true hin

/-- The swap filter keeps pools it is given. -/
theorem subset_of_filterPoolsBySwap {keccak : Keccak} {node : Node} {evm : Evm}
    {pools kept : List RawPool} {slotMap : SlotMap} {registry : RouterRegistry}
    {addrs : List Address} {schedule : Schedule (pools.filter (isTestable slotMap)).length}
    (h : filterPoolsBySwap keccak node evm pools slotMap registry addrs schedule = some kept) :
    kept ⊆ pools := by
  unfold filterPoolsBySwap mergeResults at h
  dsimp only at h
  split at h
  · cases h
  · cases h
    intro pool hpool
    rcases List.mem_append.mp hpool with htested | hskipped
    · obtain ⟨result, hresult, rfl⟩ := List.mem_map.mp htested
      obtain ⟨i, -, rfl⟩ := List.mem_map.mp (List.mem_filter.mp hresult).1
      exact (List.mem_filter.mp (List.get_mem _ i)).1
    · exact (List.mem_filter.mp hskipped).1

/-- The full filter keeps pools it is given, with allowed tokens. -/
theorem mem_of_filterPoolsFull {w : World} {pools kept : List RawPool} {registry : RouterRegistry}
    {tokenLimit : Nat} {blacklisted : Finset Address}
    (h : filterPoolsFull w pools registry tokenLimit blacklisted = .ok (some kept))
    {pool : RawPool} (hpool : pool ∈ kept) :
    pool ∈ pools ∧ (0 < tokenLimit → ∀ allowed, allowedTokens w.gecko = some allowed →
      pool.token0 ∈ allowed ∧ pool.token1 ∈ allowed) := by
  unfold filterPoolsFull at h
  dsimp only at h
  generalize hused : (if 0 < tokenLimit then keepAllowed w.gecko (dropBlacklisted blacklisted pools)
    else dropBlacklisted blacklisted pools) = used at h
  split at h
  · cases h
  split at h
  · cases h
  have hin := subset_of_filterPoolsBySwap (Except.ok.inj h) hpool
  rw [← hused] at hin
  by_cases hlimit : 0 < tokenLimit
  · rw [if_pos hlimit] at hin
    obtain ⟨hclean, hallowed⟩ := mem_of_mem_keepAllowed hin
    exact ⟨(mem_dropBlacklisted.mp hclean).1, fun _ => hallowed⟩
  · rw [if_neg hlimit] at hin
    exact ⟨(mem_dropBlacklisted.mp hin).1, fun hpos => absurd hpos hlimit⟩

variable {start : Start} {file written : Option Text} {pools : List RawPool}

/-- The full filter as the start calls it. -/
def Start.fullFilter (start : Start) : Except FilterError (Option (List RawPool)) :=
  filterPoolsFull start.world start.clean (buildRouterRegistry start.settings.routers)
    (if start.settings.geckoEnabled then start.settings.geckoTopTokens else 0)
    start.settings.blacklisted

/-- What a start says of a pool it keeps. -/
structure Kept (start : Start) (file : Option Text) (pool : RawPool) : Prop where
  loaded : pool ∈ start.loaded
  clean : pool.token0 ∉ start.settings.blacklisted ∧ pool.token1 ∉ start.settings.blacklisted
  cached : start.settings.skipPoolFilter = false → start.settings.forceRefilter = false →
    ∀ safe, file.bind cachedSafe = some safe → pool.address ∈ safe
  passed : start.Filters file → ∃ kept, start.fullFilter = .ok (some kept) ∧ pool ∈ kept
  allowed : start.Filters file → start.settings.geckoEnabled = true →
    0 < start.settings.geckoTopTokens → ∀ allowed, allowedTokens start.world.gecko = some allowed →
      pool.token0 ∈ allowed ∧ pool.token1 ∈ allowed

theorem kept_of_outcome (hkept : start.outcome file = .kept pools written) :
    ∀ pool ∈ pools, Kept start file pool := by
  intro pool hpool
  unfold Start.outcome filterPools at hkept
  dsimp only at hkept
  by_cases hskips : dropBlacklisted start.settings.blacklisted start.loaded = [] ∨
      start.settings.skipPoolFilter = true
  · -- Nothing is filtered.
    rw [if_pos hskips] at hkept
    cases hkept
    obtain ⟨hloaded, hclean⟩ := mem_dropBlacklisted.mp hpool
    have hskip : start.settings.skipPoolFilter = true :=
      hskips.resolve_left (List.ne_nil_of_mem hpool)
    have hnot : ¬ start.Filters file := fun hfilters =>
      absurd (hskip.symm.trans hfilters.2.1) (by simp)
    refine ⟨hloaded, hclean, fun hfalse => ?_, (absurd · hnot), (absurd · hnot)⟩
    exact absurd (hskip.symm.trans hfalse) (by simp)
  rw [if_neg hskips] at hkept
  split at hkept
  · -- The cache is used.
    rename_i safe hsafe
    cases hkept
    obtain ⟨hin, haddress⟩ := List.mem_filter.mp hpool
    obtain ⟨hloaded, hclean⟩ := mem_dropBlacklisted.mp hin
    split at hsafe
    · cases hsafe
    · rename_i hforce
      have hnot : ¬ start.Filters file := fun hfilters => by
        rcases hfilters.2.2 with htrue | hnone
        · exact hforce htrue
        · exact absurd (hsafe.symm.trans hnone) (Option.some_ne_none safe)
      refine ⟨hloaded, hclean, fun _ _ other hother => ?_, (absurd · hnot), (absurd · hnot)⟩
      cases hsafe.symm.trans hother
      exact of_decide_eq_true haddress
  · rename_i hfresh
    split at hkept
    · cases hkept
    · cases hkept
    · rename_i kept hfull
      cases hkept
      obtain ⟨hin, hallowed⟩ := mem_of_filterPoolsFull hfull hpool
      obtain ⟨hloaded, hclean⟩ := mem_dropBlacklisted.mp hin
      refine ⟨hloaded, hclean, fun _ hforce safe hsafe => ?_, fun _ => ⟨_, hfull, hpool⟩,
        fun _ hgecko hlimit => ?_⟩
      · rw [hforce] at hfresh
        exact absurd (hfresh.symm.trans hsafe) (Option.some_ne_none safe).symm
      · rw [hgecko] at hallowed
        exact hallowed hlimit

/-! ## Paths -/

/-- What a start says of a token of a path. -/
structure Admitted (start : Start) (file : Option Text) (token : Address) : Prop where
  clean : token ∉ start.settings.blacklisted
  allowed : start.settings.geckoEnabled = true →
    (start.settings.skipPoolFilter = true ∨
      start.Filters file ∧ 0 < start.settings.geckoTopTokens) →
    ∀ allowed, allowedTokens start.world.gecko = some allowed → token ∈ allowed

/-- A cycle through a start token, over kept pools and admitted tokens. -/
structure Vetted (start : Start) (file : Option Text) (path : SwapPath) : Prop where
  cycle : ∃ pools, (∀ pool ∈ pools, Kept start file pool) ∧
    ∃ S ∈ start.settings.starts, ClosedSimpleCycle pools S path.steps
  hops : 3 ≤ path.steps.length ∧ path.steps.length ≤ start.settings.maxHops + 1
  tokens : ∀ step ∈ path.steps,
    Admitted start file step.tokenIn ∧ Admitted start file step.tokenOut

theorem mem_startPaths {s : Settings} {w : World} {path : SwapPath}
    (h : path ∈ startPaths s w pools) :
    path ∈ (builder s w pools).buildArbPaths s.starts ∧
      (s.skipPoolFilter = true → s.geckoEnabled = true → ∀ allowed,
        allowedTokens w.gecko = some allowed → pathUsesAllowedTokens path allowed = true) := by
  unfold startPaths at h
  dsimp only at h
  generalize hbuilt : (if pools = [] ∨ s.starts = [] then []
    else (builder s w pools).buildArbPaths s.starts) = built at h
  have hsub : built ⊆ (builder s w pools).buildArbPaths s.starts := by
    rw [← hbuilt]
    split
    · exact List.nil_subset _
    · exact List.Subset.refl _
  split at h
  · rename_i hfilter
    cases hgecko : w.gecko with
    | none =>
      rw [hgecko] at h
      exact ⟨hsub h, fun _ _ => nofun⟩
    | some tokens =>
      rw [hgecko] at h
      dsimp only at h
      unfold allowedTokens
      rw [Option.bind_some]
      by_cases hempty : geckoToAddressSet tokens = ∅
      · rw [if_pos hempty] at h ⊢
        exact ⟨hsub h, fun _ _ => nofun⟩
      · rw [if_neg hempty] at h ⊢
        obtain ⟨hmem, haccept⟩ := List.mem_filter.mp h
        obtain ⟨-, htokens⟩ := Bool.and_eq_true_iff.mp haccept
        refine ⟨hsub hmem, fun _ _ allowed hallowed => ?_⟩
        cases hallowed
        exact (Bool.or_eq_true_iff.mp htokens).resolve_left (by simpa using hempty)
  · rename_i hnot
    refine ⟨hsub h, fun hskip hgecko => ?_⟩
    exact absurd ⟨hskip, hgecko, List.ne_nil_of_mem h⟩ hnot

/-- A pool that trades a step is kept, and so its tokens are the step's. -/
theorem exists_pool_of_cycle {S : Address} {steps : List SwapStep}
    (h : ClosedSimpleCycle pools S steps) {step : SwapStep} (hstep : step ∈ steps) :
    ∃ pool ∈ pools, (pool.token0 = step.tokenIn ∧ pool.token1 = step.tokenOut) ∨
      (pool.token0 = step.tokenOut ∧ pool.token1 = step.tokenIn) := by
  obtain ⟨indices, -, htrades⟩ := h.pooled
  clear h
  induction htrades with
  | nil => exact absurd hstep List.not_mem_nil
  | @cons i first indices steps hfirst _ ih =>
    rcases List.mem_cons.mp hstep with rfl | hstep
    · obtain ⟨pool, hpool, -, -, -, hends⟩ := hfirst
      exact ⟨pool, List.mem_of_getElem? hpool, hends⟩
    · exact ih hstep

theorem vetted_of_startPaths (hkept : start.outcome file = .kept pools written) :
    ∀ path ∈ startPaths start.settings start.world pools, Vetted start file path := by
  intro path hpath
  obtain ⟨hbuilt, hallowed⟩ := mem_startPaths hpath
  have hpools := kept_of_outcome hkept
  obtain ⟨-, S, hS, hcycle, hhops⟩ :=
    ((builder start.settings start.world pools).sound start.settings.starts).paths path hbuilt
  have htokens : ∀ step ∈ path.steps,
      Admitted start file step.tokenIn ∧ Admitted start file step.tokenOut := by
    intro step hstep
    obtain ⟨pool, hpool, hends⟩ := exists_pool_of_cycle hcycle hstep
    have h := hpools pool hpool
    -- The tokens of the pool, and those of the path, in the order of the pool.
    have hpair : Admitted start file pool.token0 ∧ Admitted start file pool.token1 := by
      have hboth : ∀ allowed, start.settings.geckoEnabled = true →
          (start.settings.skipPoolFilter = true ∨
            start.Filters file ∧ 0 < start.settings.geckoTopTokens) →
          allowedTokens start.world.gecko = some allowed →
            pool.token0 ∈ allowed ∧ pool.token1 ∈ allowed := by
        intro allowed hgecko hmode hsome
        rcases hmode with hskip | ⟨hfilters, hlimit⟩
        · have hall := List.all_eq_true.mp (hallowed hskip hgecko allowed hsome) step hstep
          have hin := Bool.and_eq_true_iff.mp hall
          have hleft := of_decide_eq_true hin.1
          have hright := of_decide_eq_true hin.2
          rcases hends with ⟨h0, h1⟩ | ⟨h0, h1⟩
          · rw [h0, h1]
            exact ⟨hleft, hright⟩
          · rw [h0, h1]
            exact ⟨hright, hleft⟩
        · exact h.allowed hfilters hgecko hlimit allowed hsome
      exact ⟨⟨h.clean.1, fun hgecko hmode allowed hsome => (hboth allowed hgecko hmode hsome).1⟩,
        ⟨h.clean.2, fun hgecko hmode allowed hsome => (hboth allowed hgecko hmode hsome).2⟩⟩
    rcases hends with ⟨h0, h1⟩ | ⟨h0, h1⟩
    · rw [← h0, ← h1]
      exact hpair
    · rw [← h0, ← h1]
      exact hpair.symm
  exact ⟨⟨pools, hpools, S, hS, hcycle⟩, hhops, htokens⟩

/-! ## Runs -/

/-- **From the configuration to the sender.** Each path `main` hands to the pipeline, and whatever the
pipeline does, each path the transaction sender takes, is a cycle of three to `max_hops + 1` steps
through a configured start token, over loaded pools that passed the filter or stand in its cache; it
goes through no blacklisted token, and where the traded tokens were asked for, through these alone. -/
theorem taken_vetted (hkept : start.outcome file = .kept pools written) {base : Pipeline.Setup}
    {n : Nat} {m : Memory} {heads : Fin n → UInt64} {g : GasStation} {sender : TxSender.State}
    {is : List (Pipeline.Label n)} {s : Pipeline.System n}
    (hrun : Run (Pipeline.Step (startSetup base start.settings start.world pools))
      (.start m heads g sender) is s) :
    (∀ path ∈ (startSetup base start.settings start.world pools).paths, Vetted start file path) ∧
      ∀ valid ∈ s.taken, Vetted start file valid.arb.path := by
  have hpaths := vetted_of_startPaths hkept
  refine ⟨hpaths, fun valid hvalid => ?_⟩
  have hsourced := (Pipeline.traced_run hrun).valids valid (List.mem_append_left _ hvalid)
  exact hpaths _ hsourced.1.registered

/-- Three pools around three tokens. -/
def triangleStart : Start :=
  ⟨plainSettings, silentWorld,
    [⟨7, 1, 2, 18, 18, 30, 0, .uniswapV2⟩, ⟨8, 2, 3, 18, 18, 30, 0, .uniswapV2⟩,
      ⟨9, 3, 1, 18, 18, 30, 0, .uniswapV2⟩]⟩

theorem triangleStart_outcome : triangleStart.outcome none =
    .kept triangleStart.loaded (some (filterCacheContent ['0'] triangleStart.loaded)) := by
  rfl

/-- The cycle through them. -/
def trianglePath : SwapPath :=
  ⟨[⟨7, 1, 2, .uniswapV2, 30⟩, ⟨8, 2, 3, .uniswapV2, 30⟩, ⟨9, 3, 1, .uniswapV2, 30⟩], 3⟩

/-- Pool 7 with equal reserves; a hop through the others doubles. -/
def triangleMemory : Memory :=
  ⟨StateDb.empty.updateSlot 7 8 (BitVec.ofNat 256 (10 ^ 21 + 10 ^ 21 * 2 ^ 112)),
    ⟨fun _ _ => some (rateScale * 2), fun _ => none⟩, .new⟩

def triangleSetup : Pipeline.Setup :=
  startSetup Pipeline.sampleSetup plainSettings silentWorld triangleStart.loaded

/-- The searcher's memory once it has taken an event of pool 7. -/
def triangleRated : Memory :=
  triangleSetup.searcher.updateRatesForPools .missing triangleMemory [7]

def triangleArb : ArbPath :=
  ⟨trianglePath, triangleRated.estimator.evaluatePath trianglePath - rateScale,
    Searcher.estimateGas trianglePath, 5⟩

/-- The cycle is found, simulated and taken. -/
theorem taken_vetted_triangleStart :
    ∃ s : Pipeline.System 1, s.taken.map (fun valid => valid.arb.path) = [trianglePath] ∧
      Vetted triangleStart none trianglePath := by
  have hassess : Searcher.assess trianglePath (triangleRated.estimator.evaluatePath trianglePath) 5 =
      some triangleArb := by
    have hrate : ¬ triangleRated.estimator.evaluatePath trianglePath = 0 ∧
        ¬ triangleRated.estimator.evaluatePath trianglePath < rateScale := by
      decide +kernel
    rw [Searcher.assess, if_neg hrate.1, if_neg hrate.2]
    rfl
  obtain ⟨s, hrun, htaken⟩ := @Pipeline.run_of_found triangleSetup.paths triangleSetup.metas
    triangleMemory _ 7 [0] triangleArb ⟨triangleArb, 1, 1000, 0, 999⟩ rfl (by decide)
    (Pipeline.evaluates_single rfl rfl hassess) rfl rfl
  refine ⟨s, ?_, ?_⟩
  · rw [htaken]
    rfl
  · exact (taken_vetted triangleStart_outcome hrun).2 ⟨triangleArb, 1, 1000, 0, 999⟩
      (htaken ▸ List.mem_singleton_self _)

end ArbBot.Startup
