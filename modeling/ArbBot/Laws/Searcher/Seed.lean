import ArbBot.Laws.Searcher.Rates
import ArbBot.Laws.StateDb
import ArbBot.SearcherSeed

/-!
# What the searcher starts from

A result of a batch is taken for the pool at its place, whatever its id says. So when a node answers
every request, but in an order of its own, the pools have their own reserves exactly where the words
of each batch are the same in both orders (`seed_own_iff`). The rates are those of the reserves that
are stored, right or not.
-/

namespace ArbBot.Searcher

open Lib

variable {service : SeedService} {db : StateDb}

/-! ## Batches -/

theorem flatten_takes {size : Nat} (pools : List Address) (n : Nat) :
    ((List.range n).map fun k => (pools.drop (size * k)).take size).flatten =
      pools.take (size * n) := by
  induction n with
  | zero => simp
  | succ n ih =>
    rw [List.range_succ, List.map_append, List.flatten_append, ih, List.map_singleton,
      List.flatten_singleton, Nat.mul_succ, List.take_add]

/-- The batches are the pools, in their order. -/
theorem flatten_chunksOf {size : Nat} (hsize : 0 < size) (pools : List Address) :
    (chunksOf size pools).flatten = pools := by
  have hcover : pools.length ≤ size * ((pools.length + size - 1) / size) := by
    have hdiv := Nat.div_add_mod (pools.length + size - 1) size
    have hmod := Nat.mod_lt (pools.length + size - 1) hsize
    omega
  rw [chunksOf, flatten_takes, List.take_of_length_le hcover]

/-- The results of a batch, with the pools they are taken for. -/
def chunkEntries (service : SeedService) (chunk : List Address) :
    List (Address × Option String) :=
  match service chunk with
  | none => []
  | some results => chunk.zip results

theorem seedChunk_eq (db : StateDb) (chunk : List Address) :
    seedChunk service db chunk = (chunkEntries service chunk).foldl storeSeed db := by
  unfold seedChunk chunkEntries
  cases service chunk with
  | none => rfl
  | some results => rfl

theorem seedChunks_eq (chunks : List (List Address)) (db : StateDb) :
    chunks.foldl (seedChunk service) db =
      (chunks.flatMap (chunkEntries service)).foldl storeSeed db := by
  induction chunks generalizing db with
  | nil => rfl
  | cons chunk chunks ih =>
    rw [List.foldl_cons, ih, List.flatMap_cons, List.foldl_append, seedChunk_eq]

/-! ## Slots -/

/-- The word of a result; what is none counts as zero. -/
def resultWord (result : Option String) : U256 := (result.bind seedWord).getD 0

/-- What is stored of a word: zero is left out. -/
def stored (word : U256) : Option U256 := if word = 0 then none else some word

theorem stored_injective : Function.Injective stored := by
  intro word word' h
  unfold stored at h
  split at h
  · split at h
    · rename_i h0 h0'
      rw [h0, h0']
    · cases h
  · split at h
    · cases h
    · exact Option.some.inj h

theorem slot_storeSeed_self (db : StateDb) (pool : Address) (result : Option String) :
    (storeSeed db (pool, result)).slot pool StateDb.v2ReservesSlot =
      (stored (resultWord result)).or (db.slot pool StateDb.v2ReservesSlot) := by
  unfold storeSeed resultWord stored
  cases result.bind seedWord with
  | none => rfl
  | some value =>
    dsimp only
    rw [Option.getD_some]
    by_cases hzero : value = 0
    · rw [if_pos hzero, if_pos hzero, Option.none_or]
    · rw [if_neg hzero, if_neg hzero, StateDb.slot_updateSlot, if_pos ⟨rfl, rfl⟩, Option.some_or]

theorem slot_storeSeed_of_ne (db : StateDb) {pool other : Address} {key : U256}
    (hne : ¬ (other = pool ∧ key = StateDb.v2ReservesSlot)) (result : Option String) :
    (storeSeed db (pool, result)).slot other key = db.slot other key := by
  unfold storeSeed
  cases result.bind seedWord with
  | none => rfl
  | some value =>
    dsimp only
    split
    · rfl
    · rw [StateDb.slot_updateSlot]
      exact if_neg hne

theorem slot_storeSeeds_of_notMem {entries : List (Address × Option String)} {pool : Address}
    (hnot : pool ∉ entries.map Prod.fst) (db : StateDb) (key : U256) :
    (entries.foldl storeSeed db).slot pool key = db.slot pool key := by
  induction entries generalizing db with
  | nil => rfl
  | cons entry entries ih =>
    obtain ⟨hne, hrest⟩ := not_or.mp (mt List.mem_cons.mpr hnot)
    rw [List.foldl_cons, ih hrest, slot_storeSeed_of_ne db fun h => hne h.1]

theorem slot_storeSeeds {entries : List (Address × Option String)}
    (hnodup : (entries.map Prod.fst).Nodup) {pool : Address} {result : Option String}
    (hentry : (pool, result) ∈ entries) (db : StateDb) :
    (entries.foldl storeSeed db).slot pool StateDb.v2ReservesSlot =
      (stored (resultWord result)).or (db.slot pool StateDb.v2ReservesSlot) := by
  obtain ⟨before, after, rfl⟩ := List.append_of_mem hentry
  rw [List.map_append, List.map_cons, List.nodup_append] at hnodup
  obtain ⟨-, hafter, hapart⟩ := hnodup
  have hbefore : pool ∉ before.map Prod.fst := fun hin =>
    hapart pool hin pool List.mem_cons_self rfl
  rw [List.foldl_append, List.foldl_cons, slot_storeSeeds_of_notMem (List.nodup_cons.mp hafter).1,
    slot_storeSeed_self, slot_storeSeeds_of_notMem hbefore]

/-- What a batch stores in a slot: the last word of the pool, in its slot of reserves. -/
def seedWritten (entries : List (Address × Option String)) (cell : Address × U256) : Option U256 :=
  if cell.2 = StateDb.v2ReservesSlot then
    entries.reverse.findSome? fun entry =>
      if entry.1 = cell.1 then stored (resultWord entry.2) else none
  else none

theorem slot_seedChunk (db : StateDb) (chunk : List Address) (cell : Address × U256) :
    (seedChunk service db chunk).slot cell.1 cell.2 =
      (seedWritten (chunkEntries service chunk) cell).or (db.slot cell.1 cell.2) := by
  rw [seedChunk_eq]
  obtain ⟨pool, key⟩ := cell
  induction chunkEntries service chunk generalizing db with
  | nil => simp [seedWritten]
  | cons entry entries ih =>
    rw [List.foldl_cons, ih]
    unfold seedWritten
    dsimp only
    by_cases hkey : key = StateDb.v2ReservesSlot
    · subst hkey
      rw [if_pos rfl, if_pos rfl, List.reverse_cons, List.findSome?_append, Option.or_assoc]
      congr 1
      by_cases hpool : entry.1 = pool
      · subst hpool
        rw [slot_storeSeed_self, List.findSome?_singleton, if_pos rfl]
      · rw [slot_storeSeed_of_ne db fun h => hpool h.1.symm, List.findSome?_singleton, if_neg hpool,
          Option.none_or]
    · rw [if_neg hkey, if_neg hkey, slot_storeSeed_of_ne db fun h => hkey h.2]

/-! ## Rates without reserves -/

theorem rates_seedPassthrough_of_ne (s : Searcher) (est : RateEstimator) {pool other : Address}
    (hne : other ≠ pool) : (s.seedPassthrough db est pool).rates other = est.rates other := by
  have hexotic : ∀ est : RateEstimator,
      (est.updateExoticPassthrough pool).rates other = est.rates other :=
    (RateEstimator.onRow_insert_both _ _).row_of_ne hne
  unfold seedPassthrough
  split
  · exact hexotic est
  rename_i m _
  have hspot : (est.updateV3SpotRate db pool m.decimals0 m.decimals1 m.fee).rates other =
      est.rates other := (RateEstimator.onRow_updateV3SpotRate ..).row_of_ne hne est
  split
  · dsimp only
    split
    · exact hspot
    · split
      · exact ((RateEstimator.onRow_insert_both _ _).row_of_ne hne _).trans hspot
      · exact (hexotic _).trans hspot
  · exact hexotic est

/-- The rates of no other pool are touched. -/
theorem rates_seedPassthroughs (s : Searcher) {pools : List Address} {other : Address}
    (hother : other ∉ pools) (est : RateEstimator) :
    (pools.foldl (s.seedPassthrough db) est).rates other = est.rates other := by
  induction pools generalizing est with
  | nil => rfl
  | cons pool pools ih =>
    obtain ⟨hne, hrest⟩ := not_or.mp (mt List.mem_cons.mpr hother)
    rw [List.foldl_cons, ih hrest, rates_seedPassthrough_of_ne s est hne]

/-! ## The seed -/

section Seed

variable {s : Searcher} {quote : V3Quote} {rpcUrl : String} {order : List Address} {m : Memory}

/-- The results of all batches, with the pools they are taken for. -/
def seedEntries (s : Searcher) (service : SeedService) (order : List Address) :
    List (Address × Option String) :=
  (chunksOf 200 (s.slot8Pools order)).flatMap (chunkEntries service)

/-- The node answers every batch with a result for each request, in some order. -/
def AnswersAll (service : SeedService) : Prop :=
  ∀ chunk, ∃ results, service chunk = some results ∧ results.length = chunk.length

theorem keys_chunkEntries (hall : AnswersAll service) (chunk : List Address) :
    (chunkEntries service chunk).map Prod.fst = chunk := by
  obtain ⟨results, hresults, hlength⟩ := hall chunk
  unfold chunkEntries
  rw [hresults]
  exact List.map_fst_zip (le_of_eq hlength.symm)

theorem keys_seedEntries (s : Searcher) (order : List Address) (hall : AnswersAll service) :
    (s.seedEntries service order).map Prod.fst = s.slot8Pools order := by
  unfold seedEntries
  rw [List.map_flatMap]
  simp only [keys_chunkEntries hall]
  rw [List.flatMap_id']
  exact flatten_chunksOf (by decide) _

theorem db_seedInitialRates (hurl : rpcUrl ≠ "") :
    (s.seedInitialRates quote service rpcUrl order m).db =
      (s.seedEntries service order).foldl storeSeed m.db := by
  unfold seedInitialRates
  by_cases horder : order = []
  · have hnone : s.seedEntries service [] = [] := by
      simp [seedEntries, slot8Pools, chunksOf]
    rw [if_pos (.inl horder), horder, hnone]
    rfl
  · rw [if_neg (not_or.mpr ⟨horder, hurl⟩)]
    exact seedChunks_eq _ m.db

/-- Two lists that agree place by place. -/
theorem map_eq_map_iff_zip (word : Address → U256) :
    ∀ {chunk : List Address} {results : List (Option String)}, results.length = chunk.length →
      (results.map resultWord = chunk.map word ↔
        ∀ entry ∈ chunk.zip results, resultWord entry.2 = word entry.1)
  | [], [], _ => by simp
  | pool :: chunk, result :: results, hlength => by
    have ih := map_eq_map_iff_zip word (Nat.succ.inj hlength)
    rw [List.map_cons, List.map_cons, List.cons.injEq, ih, List.zip_cons_cons, List.forall_mem_cons]

theorem mem_chunkEntries {chunk : List Address} {results : List (Option String)}
    (hresults : service chunk = some results) {entry : Address × Option String} :
    entry ∈ chunkEntries service chunk ↔ entry ∈ chunk.zip results := by
  unfold chunkEntries
  rw [hresults]

/-- **What the searcher starts from.** A node answers all requests of every batch, in an order of its
own. Then every pool that is priced from its reserves has its own word stored exactly where each batch
of results reads the words of its pools, place by place; and its rates are those of what is stored. -/
theorem seed_own_iff (hnodup : order.Nodup) (hurl : rpcUrl ≠ "") (hall : AnswersAll service)
    (hfresh : ∀ pool ∈ order, m.db.slot pool StateDb.v2ReservesSlot = none)
    (word : Address → U256) :
    ((∀ pool ∈ s.slot8Pools order,
        (s.seedInitialRates quote service rpcUrl order m).db.slot pool StateDb.v2ReservesSlot =
          stored (word pool)) ↔
      ∀ chunk ∈ chunksOf 200 (s.slot8Pools order), ∀ results, service chunk = some results →
        results.map resultWord = chunk.map word) ∧
    ∀ pool ∈ s.slot8Pools order, ∀ p, s.poolMeta pool = some p →
      (s.seedInitialRates quote service rpcUrl order m).estimator.rates pool =
        freshRow quote (s.seedInitialRates quote service rpcUrl order m).db pool p := by
  have hkeys := keys_seedEntries s order hall
  have hdistinct : ((s.seedEntries service order).map Prod.fst).Nodup :=
    hkeys ▸ hnodup.filter _
  -- Each pool has the word of the result at its place.
  have hslot : ∀ entry ∈ s.seedEntries service order,
      (s.seedInitialRates quote service rpcUrl order m).db.slot entry.1 StateDb.v2ReservesSlot =
        stored (resultWord entry.2) := by
    intro entry hentry
    have hpool : entry.1 ∈ s.slot8Pools order := hkeys ▸ List.mem_map_of_mem hentry
    rw [db_seedInitialRates hurl, slot_storeSeeds hdistinct hentry,
      hfresh entry.1 (List.mem_filter.mp hpool).1, Option.or_none]
  refine ⟨⟨fun hown chunk hchunk results hresults => ?_, fun hwords pool hpool => ?_⟩,
    fun pool hpool p hp => ?_⟩
  · obtain ⟨results', hresults', hlength⟩ := hall chunk
    cases hresults.symm.trans hresults'
    refine (map_eq_map_iff_zip word hlength).mpr fun entry hentry => ?_
    have hin : entry ∈ s.seedEntries service order :=
      List.mem_flatMap.mpr ⟨chunk, hchunk, (mem_chunkEntries hresults).mpr hentry⟩
    have hpool : entry.1 ∈ s.slot8Pools order := hkeys ▸ List.mem_map_of_mem hin
    exact stored_injective ((hslot entry hin).symm.trans (hown entry.1 hpool))
  · rw [← hkeys] at hpool
    obtain ⟨entry, hentry, rfl⟩ := List.mem_map.mp hpool
    obtain ⟨chunk, hchunk, hin⟩ := List.mem_flatMap.mp hentry
    obtain ⟨results, hresults, hlength⟩ := hall chunk
    have hzip := (mem_chunkEntries hresults).mp hin
    have hword := (map_eq_map_iff_zip word hlength).mp (hwords chunk hchunk results hresults)
    rw [hslot entry hentry, hword entry hzip]
  · have hne : order ≠ [] := List.ne_nil_of_mem (List.mem_filter.mp hpool).1
    have hrow : s.freshRows quote (s.seedInitialRates quote service rpcUrl order m).db pool =
        some (freshRow quote (s.seedInitialRates quote service rpcUrl order m).db pool p) := by
      rw [freshRows, hp]
      rfl
    have hrates : (s.seedInitialRates quote service rpcUrl order m).estimator =
        s.updateRates quote (s.seedInitialRates quote service rpcUrl order m).db
          ((s.passthroughPools order).foldl (s.seedPassthrough m.db) m.estimator)
          (s.slot8Pools order) := by
      unfold seedInitialRates
      rw [if_neg (not_or.mpr ⟨hne, hurl⟩)]
      rfl
    rw [hrates, updateRates_eq_refresh]
    exact Rows.row_refresh_of_mem (L := RateEstimator.rows) hpool hrow _

end Seed

/-! ### A batch that is answered from its end -/

/-- A searcher of two pools, and a node that answers their reads the other way round. -/
def seededSearcher : Searcher :=
  (new 1).registerPoolMeta
    [⟨10, 1, 2, 18, 18, false, 30, 0, .uniswapV2⟩, ⟨11, 1, 2, 18, 18, false, 30, 0, .uniswapV2⟩]

def reversing : SeedService := fun chunk =>
  some (chunk.map fun pool => if pool = 10 then some "0x7" else some "0x9").reverse

/-- One of the pools is left with the word of the other. -/
theorem seed_own_iff_reversing :
    ¬ ∀ pool ∈ seededSearcher.slot8Pools [10, 11],
      (seededSearcher.seedInitialRates .missing reversing "node" [10, 11]
        ⟨.empty, .new, .new⟩).db.slot pool StateDb.v2ReservesSlot =
        stored (if pool = 10 then 7 else 9) := by
  have hall : AnswersAll reversing := fun chunk => ⟨_, rfl, by simp⟩
  intro hown
  have hwords := (seed_own_iff (by decide) (by decide) hall (fun _ _ => rfl) _).1.mp hown
    [10, 11] (by decide) _ rfl
  exact absurd hwords (by decide)

end ArbBot.Searcher
