import ArbBot.Laws.Addresses
import ArbBot.Startup

/-!
# The cache of the swap filter

The file that is written after the filter has run is read back as the addresses of the pools that
were kept (`cachedSafe_content`). So after a run that kept a pool, every later start without
`FORCE_REFILTER` keeps those of its loaded pools whose address the run kept, less what is blacklisted
by then, and tests none: what was dropped stays out, and so does what is new (`later_start`).
-/

namespace ArbBot.Startup

open Lib Accounts

/-! ## The file -/

theorem feedless_formatAddress (a : Address) :
    '\n' ∉ formatAddress a ∧ '\r' ∉ formatAddress a := by
  have hdigits : ∀ n < 16, Nat.digitChar n ≠ '\n' ∧ Nat.digitChar n ≠ '\r' := by decide
  constructor
  · intro h
    rcases mem_formatAddress h with hx | ⟨n, hn, hc⟩
    · exact absurd hx (by decide)
    · exact (hdigits n hn).1 hc.symm
  · intro h
    rcases mem_formatAddress h with hx | ⟨n, hn, hc⟩
    · exact absurd hx (by decide)
    · exact (hdigits n hn).2 hc.symm

theorem feed_notMem_ofNat (n : Nat) : '\n' ∉ Text.ofNat n := by
  intro h
  have hdigit := Nat.isDigit_of_mem_toDigits (by decide) (by decide) h
  exact absurd hdigit (by decide)

/-- The lines that are looked at. -/
def entryLines (lines : List Text) : List Text :=
  lines.filter fun line => line ≠ [] ∧ line.head? ≠ some '#'

theorem head_dropReturn {c c' : Char} {rest : Text} :
    (Text.dropReturn (c :: c' :: rest)).head? = some c := by
  unfold Text.dropReturn
  split
  · rw [List.dropLast_cons_cons]
    rfl
  · rfl

theorem entryLines_comment {c : Char} {line : Text} {lines : List Text} :
    entryLines (Text.dropReturn ('#' :: c :: line) :: lines) = entryLines lines := by
  unfold entryLines
  refine List.filter_cons_of_neg ?_
  simp [head_dropReturn]

theorem entryLines_addresses (pools : List RawPool) :
    entryLines (Text.lines (['\n'].intercalate (pools.map fun pool => formatAddress pool.address) ++
      ['\n'])) = pools.map fun pool => formatAddress pool.address := by
  cases pools with
  | nil => rfl
  | cons pool pools =>
    have hfeedless : ∀ text ∈ (pool :: pools).map fun pool => formatAddress pool.address,
        '\n' ∉ text ∧ '\r' ∉ text := by
      intro text htext
      obtain ⟨p, -, rfl⟩ := List.mem_map.mp htext
      exact feedless_formatAddress p.address
    have hne : (pool :: pools).map (fun pool => formatAddress pool.address) ≠ [] :=
      List.cons_ne_nil _ _
    rw [Text.lines_intercalate hne hfeedless]
    refine List.filter_eq_self.mpr fun line hline => ?_
    obtain ⟨p, -, rfl⟩ := List.mem_map.mp hline
    simp [formatAddress]

/-- Two lines of comments, and lines with addresses. -/
theorem entryLines_body {first second : Text} (hfirst : '\n' ∉ '#' :: ' ' :: first)
    (hsecond : '\n' ∉ '#' :: ' ' :: second) (pools : List RawPool) :
    entryLines (Text.lines (('#' :: ' ' :: first) ++ '\n' :: (('#' :: ' ' :: second) ++ '\n' ::
      (['\n'].intercalate (pools.map fun pool => formatAddress pool.address) ++ ['\n'])))) =
      pools.map fun pool => formatAddress pool.address := by
  rw [Text.lines_line hfirst, Text.lines_line hsecond, entryLines_comment, entryLines_comment]
  exact entryLines_addresses pools

theorem filterCacheContent_eq (clock : Text) (pools : List RawPool) :
    filterCacheContent clock pools =
      ('#' :: ' ' :: ("SwapFilter safe pools — generated ".toList ++ clock)) ++ '\n' ::
        (('#' :: ' ' :: (Text.ofNat pools.length ++
          " pools passed REVM roundtrip test".toList)) ++ '\n' ::
          (['\n'].intercalate (pools.map fun pool => formatAddress pool.address) ++ ['\n'])) := by
  have hfirst : "# SwapFilter safe pools — generated ".toList =
      '#' :: ' ' :: "SwapFilter safe pools — generated ".toList := by decide
  have hsecond : "\n# ".toList = ['\n', '#', ' '] := by decide
  have hthird : " pools passed REVM roundtrip test\n".toList =
      " pools passed REVM roundtrip test".toList ++ ['\n'] := by decide
  unfold filterCacheContent
  rw [hfirst, hsecond, hthird]
  simp only [List.append_assoc, List.cons_append, List.nil_append]

/-- **The file is read back.** A file without a pool is as good as none. -/
theorem cachedSafe_content {clock : Text} (hclock : '\n' ∉ clock) (pools : List RawPool) :
    cachedSafe (filterCacheContent clock pools) =
      if pools = [] then none else some (pools.map RawPool.address).toFinset := by
  have hfirst : '\n' ∉ '#' :: ' ' :: ("SwapFilter safe pools — generated ".toList ++ clock) := by
    rw [← List.cons_append, ← List.cons_append, List.mem_append, not_or]
    exact ⟨by decide, hclock⟩
  have hsecond : '\n' ∉ '#' :: ' ' :: (Text.ofNat pools.length ++
      " pools passed REVM roundtrip test".toList) := by
    intro h
    rcases List.mem_append.mp (List.mem_cons.mp ((List.mem_cons.mp h).resolve_left
      (by decide)) |>.resolve_left (by decide)) with h | h
    · exact feed_notMem_ofNat _ h
    · exact absurd h (by decide)
  have hentries : entryLines (Text.lines (filterCacheContent clock pools)) =
      pools.map fun pool => formatAddress pool.address := by
    rw [filterCacheContent_eq]
    exact entryLines_body hfirst hsecond pools
  have haddrs : ((entryLines (Text.lines (filterCacheContent clock pools))).filterMap fun line =>
      addressFromStr (Text.trim line)) = pools.map RawPool.address := by
    rw [hentries, List.filterMap_map]
    have hread : ((fun line => addressFromStr (Text.trim line)) ∘
        fun pool : RawPool => formatAddress pool.address) = some ∘ RawPool.address := by
      funext pool
      simp only [Function.comp_apply, trim_formatAddress, addressFromStr_format]
    rw [hread, List.filterMap_eq_map]
  unfold cachedSafe
  unfold entryLines at haddrs
  simp only [haddrs]
  cases pools with
  | nil => rfl
  | cons pool pools =>
    rw [if_neg (List.cons_ne_nil pool pools), if_neg]
    simp

/-! ## Starts -/

/-- A start of the program: what it is configured with, what it meets, and what it loads. -/
structure Start where
  settings : Settings
  world : World
  loaded : List RawPool

namespace Start

/-- The loaded pools without the blacklisted ones. -/
def clean (start : Start) : List RawPool :=
  dropBlacklisted start.settings.blacklisted start.loaded

def outcome (start : Start) (cacheFile : Option Text) : Filtered :=
  filterPools start.settings start.world cacheFile start.loaded

/-- The start runs the filter. -/
def Filters (start : Start) (cacheFile : Option Text) : Prop :=
  start.clean ≠ [] ∧ start.settings.skipPoolFilter = false ∧
    (start.settings.forceRefilter = true ∨ cacheFile.bind cachedSafe = none)

/-- The cache file after the start. -/
def fileAfter (cacheFile : Option Text) (start : Start) : Option Text :=
  match start.outcome cacheFile with
  | .kept _ file => file
  | _ => cacheFile

end Start

variable {first : Start} {file written : Option Text} {pools : List RawPool}

theorem written_of_filters (hfilters : first.Filters file)
    (hkept : first.outcome file = .kept pools written) :
    written = some (filterCacheContent first.world.clock pools) := by
  obtain ⟨hclean, hskip, hfresh⟩ := hfilters
  have hcached : (if first.settings.forceRefilter then none else file.bind cachedSafe) = none := by
    rcases hfresh with hforce | hnone
    · rw [hforce]
      rfl
    · rw [hnone]
      exact ite_self none
  have hrun : ¬ (dropBlacklisted first.settings.blacklisted first.loaded = [] ∨
      first.settings.skipPoolFilter = true) := by
    rintro (hnil | htrue)
    · exact hclean hnil
    · exact absurd (hskip.symm.trans htrue) (by simp)
  unfold Start.outcome filterPools at hkept
  simp only [if_neg hrun, hcached] at hkept
  split at hkept
  · cases hkept
  · cases hkept
  · cases hkept
    rfl

/-- A start that finds addresses in the file keeps the pools that have them. -/
theorem outcome_of_cached {start : Start} {safe : Finset Address}
    (hforce : start.settings.forceRefilter = false) (hcached : file.bind cachedSafe = some safe) :
    start.outcome file = .kept (if start.settings.skipPoolFilter then start.clean
      else start.clean.filter fun pool => pool.address ∈ safe) file := by
  have hsafe : (if start.settings.forceRefilter then none else file.bind cachedSafe) =
      some safe := by
    rw [hforce, hcached]
    rfl
  unfold Start.outcome filterPools Start.clean
  by_cases hskip : start.settings.skipPoolFilter = true
  · rw [if_pos (.inr hskip), if_pos hskip]
  · simp only [hsafe]
    rw [if_neg hskip]
    by_cases hnil : dropBlacklisted start.settings.blacklisted start.loaded = []
    · rw [if_pos (.inl hnil), hnil]
      rfl
    · rw [if_neg (not_or.mpr ⟨hnil, hskip⟩)]

/-- **Later starts.** After a start that ran the filter and kept a pool, and any starts that do not
force it, the next one keeps, of what it loads and does not blacklist, the pools the filter kept, and
leaves the file as it is; it runs no test. -/
theorem later_start (hclock : '\n' ∉ first.world.clock) (hfilters : first.Filters file)
    (hkept : first.outcome file = .kept pools written) (hne : pools ≠ []) {later : List Start}
    (hlater : ∀ start ∈ later, start.settings.forceRefilter = false) {last : Start}
    (hlast : last.settings.forceRefilter = false) :
    last.outcome (later.foldl Start.fileAfter written) =
      .kept (if last.settings.skipPoolFilter then last.clean
        else last.clean.filter fun pool => pool.address ∈ pools.map RawPool.address) written := by
  have hcached : written.bind cachedSafe = some (pools.map RawPool.address).toFinset := by
    rw [written_of_filters hfilters hkept, Option.bind_some, cachedSafe_content hclock, if_neg hne]
  -- No later start writes the file.
  have hfile : later.foldl Start.fileAfter written = written := by
    induction later with
    | nil => rfl
    | cons start later ih =>
      have hstart := hlater start List.mem_cons_self
      rw [List.foldl_cons, Start.fileAfter, outcome_of_cached hstart hcached]
      exact ih fun next hnext => hlater next (List.mem_cons_of_mem _ hnext)
  rw [hfile, outcome_of_cached hlast hcached]
  simp only [List.mem_toFinset]

/-! ### A first start -/

/-- A world in which no request is answered. -/
def silentWorld : World where
  keccak bytes := .ofNat 256 bytes.length
  node := ⟨fun _ => 0, fun _ => 0, fun _ => [], fun _ _ => 0⟩
  evm _ := .reject
  service _ := none
  joined _ := []
  fetchOrder _ _ := []
  schedule n := ⟨[List.finRange n], by rw [List.flatten_singleton]⟩
  edgeOrder pools := .insertion (PathBuilder.buildGraph pools)
  hasher steps := .ofNat steps.length
  gecko := none
  clock := ['0']

/-- One router, and no blacklist. -/
def plainSettings : Settings where
  skipPoolFilter := false
  forceRefilter := false
  geckoEnabled := false
  geckoTopTokens := 200
  blacklistedTokens := []
  routers := [("uniswapv2".toList, formatAddress 20)]
  startTokens := [formatAddress 1]
  maxHops := 3
  maxPathsPerToken := 10

/-- A pool that cannot be tested, and a pool that is loaded later. -/
def firstStart : Start := ⟨plainSettings, silentWorld, [⟨9, 1, 2, 18, 18, 30, 0, .uniswapV2⟩]⟩

def nextStart : Start :=
  ⟨plainSettings, silentWorld,
    [⟨8, 1, 2, 18, 18, 30, 0, .uniswapV2⟩, ⟨9, 1, 2, 18, 18, 30, 0, .uniswapV2⟩]⟩

theorem firstStart_outcome : firstStart.outcome none =
    .kept firstStart.loaded (some (filterCacheContent ['0'] firstStart.loaded)) := by
  rfl

theorem later_start_nextStart :
    nextStart.outcome ([nextStart].foldl Start.fileAfter
        (some (filterCacheContent ['0'] firstStart.loaded))) =
      .kept (nextStart.clean.filter fun pool =>
        pool.address ∈ firstStart.loaded.map RawPool.address)
        (some (filterCacheContent ['0'] firstStart.loaded)) := by
  have hfilters : firstStart.Filters none := ⟨by decide, rfl, .inr rfl⟩
  refine later_start ?_ hfilters firstStart_outcome (List.cons_ne_nil _ _) ?_ rfl
  · decide
  · intro start hstart
    rw [List.mem_singleton.mp hstart]
    rfl

end ArbBot.Startup
