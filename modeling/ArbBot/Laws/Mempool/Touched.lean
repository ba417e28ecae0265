import ArbBot.Laws.Mempool.SwapPaths
import ArbBot.PendingSwaps
import ArbBot.RouterCalls

/-!
# The pools of a pending transaction

What the stream reports for a transaction, against the token paths of its swaps. The decoder joins
the paths of a multicall to one list before neighbours are taken. So besides the pools of each swap
the stream reports those that trade the last token of one swap for the first of the next, and what
it reports is exact only where these are touched anyway.
-/

namespace ArbBot.Mempool

open Lib (Checked neighbours junctions)
open Lib.Checked

/-! ## The lookup -/

/-- The pool trades the two tokens of the pair, in either order. -/
def Trades (m : PoolMeta) (pair : Address × Address) : Prop :=
  (m.token0, m.token1) = pair ∨ (m.token1, m.token0) = pair

instance (m : PoolMeta) (pair : Address × Address) : Decidable (Trades m pair) :=
  inferInstanceAs (Decidable (_ ∨ _))

/-- Two pairs are looked up alike when they are the same up to order. -/
theorem canonicalPair_eq_iff (m : PoolMeta) (pair : Address × Address) :
    canonicalPair pair.1 pair.2 = canonicalPair m.token0 m.token1 ↔ Trades m pair := by
  obtain ⟨a, b⟩ := pair
  unfold canonicalPair Trades
  generalize m.token0 = c
  generalize m.token1 = d
  dsimp only
  split <;> split <;> simp only [Prod.mk.injEq] <;>
    constructor <;> intro h <;> bv_omega

theorem mem_foldl_push {poolMetas : List PoolMeta} {pair : Address × Address} {pool : Address} :
    ∀ lookup : PairLookup, pool ∈ (poolMetas.foldl PairLookup.push lookup pair).getD [] ↔
      pool ∈ (lookup pair).getD [] ∨
        ∃ m ∈ poolMetas, pair = canonicalPair m.token0 m.token1 ∧ m.address = pool := by
  induction poolMetas with
  | nil => simp
  | cons m rest ih =>
    intro lookup
    rw [List.foldl_cons, ih, PairLookup.push]
    by_cases hpair : pair = canonicalPair m.token0 m.token1
    · rw [if_pos hpair]
      simp only [Option.getD_some, List.mem_append, List.mem_singleton, List.exists_mem_cons_iff,
        or_assoc, and_iff_right hpair, eq_comm (a := m.address)]
    · simp [hpair]

theorem nodup_sortAddresses (pools : List Address) : (sortAddresses pools).Nodup := by
  have h : ((sortAddresses pools).map id).Nodup := Lib.nodup_keys_sortDedup Lib.together_id
  rwa [List.map_id] at h

/-- The table holds, for each pair, the pools that trade it. -/
theorem mem_buildTokenPairLookup {poolMetas : List PoolMeta} {pair : Address × Address}
    {pool : Address} :
    pool ∈ (buildTokenPairLookup poolMetas (canonicalPair pair.1 pair.2)).getD [] ↔
      ∃ m ∈ poolMetas, Trades m pair ∧ m.address = pool := by
  have hsorted : ∀ pools : Option (List Address),
      pool ∈ (pools.map sortAddresses).getD [] ↔ pool ∈ pools.getD [] := by
    intro pools
    cases pools with
    | none => rfl
    | some pools => exact Lib.mem_sortDedup_id
  rw [buildTokenPairLookup, hsorted, mem_foldl_push]
  simp only [canonicalPair_eq_iff, Option.getD_none, List.not_mem_nil, false_or]

/-! ## What is reported -/

/-- A pool that trades two neighbours on one of the paths. -/
def Touched (poolMetas : List PoolMeta) (paths : List (List Address)) (pool : Address) : Prop :=
  ∃ m ∈ poolMetas, m.address = pool ∧ ∃ path ∈ paths, ∃ pair ∈ neighbours path, Trades m pair

instance (poolMetas : List PoolMeta) (paths : List (List Address)) (pool : Address) :
    Decidable (Touched poolMetas paths pool) :=
  inferInstanceAs (Decidable (∃ m ∈ poolMetas, _))

/-- A pool that trades the last token of one swap for the first of the next is touched anyway. -/
def SeamsTouched (poolMetas : List PoolMeta) (paths : List (List Address)) : Prop :=
  ∀ m ∈ poolMetas, ∀ pair ∈ junctions paths, Trades m pair → Touched poolMetas paths m.address

instance (poolMetas : List PoolMeta) (paths : List (List Address)) :
    Decidable (SeamsTouched poolMetas paths) :=
  -- pairs of addresses are finitely many, but these lists are what is gone through
  @List.decidableBAll _ _ (fun m =>
    List.decidableBAll (fun pair => Trades m pair → Touched poolMetas paths m.address) _) poolMetas

/-- The pools of an event; without an event there are none. -/
def reported (event : Option PoolsTouched) : List Address := (event.map (·.touchedPools)).getD []

theorem mem_affectedPools {poolMetas : List PoolMeta} {paths : List (List Address)}
    (hpaths : ∀ path ∈ paths, path ≠ []) {pool : Address} :
    pool ∈ affectedPools (buildTokenPairLookup poolMetas) paths.flatten ↔
      Touched poolMetas paths pool ∨
        ∃ m ∈ poolMetas, m.address = pool ∧ ∃ pair ∈ junctions paths, Trades m pair := by
  simp only [affectedPools, List.mem_flatMap, mem_buildTokenPairLookup,
    Lib.mem_neighbours_flatten hpaths, Touched]
  constructor
  · rintro ⟨pair, ⟨path, hpath, hpair⟩ | hpair, m, hm, htrades, hpool⟩
    · exact .inl ⟨m, hm, hpool, path, hpath, pair, hpair, htrades⟩
    · exact .inr ⟨m, hm, hpool, pair, hpair, htrades⟩
  · rintro (⟨m, hm, hpool, path, hpath, pair, hpair, htrades⟩ | ⟨m, hm, hpool, pair, hpair, htrades⟩)
    · exact ⟨pair, .inl ⟨path, hpath, hpair⟩, m, hm, htrades, hpool⟩
    · exact ⟨pair, .inr hpair, m, hm, htrades, hpool⟩

/-- The event of a transaction to a router whose swaps were decoded. -/
theorem pendingSwap_of_swapPaths {config : MempoolConfig} {router : Address} {c : Bytes}
    {build : Lib.Build} {paths : List (List Address)} (hrouter : router ∈ config.routerAddresses)
    (hpaths : swapPaths c build = .ok (some paths)) :
    ∃ event, pendingSwap config ⟨some router, c⟩ build = .ok event ∧
      reported event = sortAddresses (affectedPools config.tokenPairToPool paths.flatten) := by
  have hdecode := decodeAnySwap_of_swapPaths hpaths
  have hrun : pendingSwap config ⟨some router, c⟩ build =
      (decodeAnySwap c >>= fun tokenPath =>
        noneIf (affectedPools config.tokenPairToPool tokenPath = []) >>= fun _ =>
          pure ⟨0, sortAddresses (affectedPools config.tokenPairToPool tokenPath)⟩ :
            Checked PoolsTouched) build := by
    unfold pendingSwap
    change (noneIf _ >>= _ : Checked _) build = _
    rw [noneIf_neg (not_not.mpr hrouter), value_bind]
  change _ = Checked.bind _ _ build at hrun
  rw [hrun]
  unfold Checked.bind
  rw [hdecode]
  by_cases hflat : paths.flatten = []
  · rw [if_pos hflat, hflat]
    exact ⟨none, rfl, rfl⟩
  · rw [if_neg hflat]
    by_cases hnone : affectedPools config.tokenPairToPool paths.flatten = []
    · refine ⟨none, ?_, ?_⟩
      · change (noneIf _ >>= _ : Checked _) build = _
        rw [noneIf_pos hnone]
        rfl
      · rw [hnone]
        rfl
    · refine ⟨some ⟨0, sortAddresses (affectedPools config.tokenPairToPool paths.flatten)⟩, ?_, rfl⟩
      change (noneIf _ >>= _ : Checked _) build = _
      rw [noneIf_neg hnone, value_bind]
      rfl

/-- **The report is exact where the seams are touched.** For every list of pools, every transaction
to a router and every build, when the swaps are decoded: each pool is reported once, and the reported
pools are those that trade neighbours on the path of one of the swaps, exactly if no pool is brought
in only by the last token of one swap and the first of the next. -/
theorem reported_iff_touched (poolMetas : List PoolMeta) (routers : Finset Address)
    (router : Address) (hrouter : router ∈ routers) (c : Bytes) (build : Lib.Build)
    (paths : List (List Address)) (hpaths : swapPaths c build = .ok (some paths)) :
    (∃ event, pendingSwap ⟨routers, buildTokenPairLookup poolMetas⟩ ⟨some router, c⟩ build =
        .ok event ∧ (reported event).Nodup ∧
          ∀ pool, pool ∈ reported event ↔ Touched poolMetas paths pool) ↔
      SeamsTouched poolMetas paths := by
  obtain ⟨event, hevent, hreported⟩ : ∃ event,
      pendingSwap ⟨routers, buildTokenPairLookup poolMetas⟩ ⟨some router, c⟩ build = .ok event ∧
        reported event =
          sortAddresses (affectedPools (buildTokenPairLookup poolMetas) paths.flatten) :=
    pendingSwap_of_swapPaths hrouter hpaths
  have hmem : ∀ pool, pool ∈ reported event ↔ Touched poolMetas paths pool ∨
      ∃ m ∈ poolMetas, m.address = pool ∧ ∃ pair ∈ junctions paths, Trades m pair := by
    intro pool
    rw [hreported, sortAddresses, Lib.mem_sortDedup_id,
      mem_affectedPools (yields_swapPaths c build paths hpaths)]
  constructor
  · rintro ⟨event', hevent', -, hexact⟩ m hm pair hpair htrades
    obtain rfl : event = event' := Except.ok.inj (hevent.symm.trans hevent')
    exact (hexact m.address).mp ((hmem m.address).mpr (.inr ⟨m, hm, rfl, pair, hpair, htrades⟩))
  · intro hseams
    refine ⟨event, hevent, ?_, fun pool => (hmem pool).trans ⟨fun h => ?_, .inl⟩⟩
    · rw [hreported]
      exact nodup_sortAddresses _
    · rcases h with htouched | ⟨m, hm, rfl, pair, hpair, htrades⟩
      · exact htouched
      · exact hseams m hm pair hpair htrades

/-! ### Samples -/

/-- A pool of the two tokens. -/
def samplePool (address token0 token1 : Address) : PoolMeta :=
  ⟨address, token0, token1, 18, 18, false, 3000, 0, .uniswapV2⟩

/-- A swap of one token for another. -/
def sampleSwapOf (token0 token1 : Address) : Lib.Bytes :=
  (RouterCalls.V2Call.swapExactTokensForTokens 1 0 [token0, token1] 7 9).encode

/-- The swap of 0xA1 for 0xA2, and then that of 0xB1 for 0xB2. -/
def twoSwaps : Bytes :=
  ⟨RouterCalls.Multicall.noDeadline.encode [sampleSwapOf 0xA1 0xA2, sampleSwapOf 0xB1 0xB2],
    by decide +kernel⟩

theorem swapPaths_twoSwaps (build : Lib.Build) :
    swapPaths twoSwaps build = .ok (some [[0xA1, 0xA2], [0xB1, 0xB2]]) := by
  cases build <;> decide +kernel

/-- A pool of 0xA2 and 0xB1 is reported, though no swap has this pair. -/
theorem seam_reported :
    pendingSwap ⟨{0xEE}, buildTokenPairLookup [samplePool 0x99 0xA2 0xB1]⟩ ⟨some 0xEE, twoSwaps⟩
        .release = .ok (some ⟨0, [0x99]⟩) ∧
      swapPaths twoSwaps .release = .ok (some [[0xA1, 0xA2], [0xB1, 0xB2]]) ∧
      ¬ Touched [samplePool 0x99 0xA2 0xB1] [[0xA1, 0xA2], [0xB1, 0xB2]] 0x99 :=
  ⟨by decide +kernel, swapPaths_twoSwaps .release, by decide⟩

/-- With a pool for each of the swaps the report is exact. -/
theorem reported_iff_touched_twoSwaps :
    ∃ event, pendingSwap ⟨{0xEE}, buildTokenPairLookup [samplePool 0x77 0xA1 0xA2,
        samplePool 0x99 0xB2 0xB1]⟩ ⟨some 0xEE, twoSwaps⟩ .release = .ok event ∧
      (reported event).Nodup ∧ ∀ pool, pool ∈ reported event ↔
        Touched [samplePool 0x77 0xA1 0xA2, samplePool 0x99 0xB2 0xB1]
          [[0xA1, 0xA2], [0xB1, 0xB2]] pool :=
  (reported_iff_touched _ {0xEE} 0xEE (by decide) twoSwaps .release _
    (swapPaths_twoSwaps .release)).mpr (by decide)

end ArbBot.Mempool
