import ArbBot.Accounts.SlotMap
import ArbBot.Addresses
import ArbBot.PathBuilder
import ArbBot.Pipeline

/-!
# Startup

What `main` does between the pool cache and `start_pipeline`: the blacklist of the configuration, the
swap filter with the file that keeps its results, the paths, and the filter by traded tokens
(`main.rs`, `filter_revm.rs`). What the program asks for outside, and the orders in which hash maps,
tasks and workers go, are arguments. A request to the file system that fails is left out.
-/

namespace ArbBot.Startup

open Lib Accounts

/-! ## Routers -/

/-- The protocol of a key of `[revm_filter.routers]`. -/
def routerProtocol (k : Text) : Option PoolProtocol :=
  match String.ofList k with
  | "uniswapv2" => some .uniswapV2
  | "sushiswapv2" => some .sushiSwapV2
  | "pancakeswapv2" => some .pancakeSwapV2
  | "baseswapv2" => some .baseSwapV2
  | "alienbasev2" => some .alienBaseV2
  | "aerodrome" => some .aerodrome
  | "solidly" => some .aerodrome
  | "slipstream" => some .slipstream
  | "uniswapv3" => some .uniswapV3
  | "sushiswapv3" => some .sushiSwapV3
  | "baseswapv3" => some .baseSwapV3
  | "pancakeswapv3" => some .pancakeSwapV3
  | "alienbasev3" => some .alienBaseV3
  | _ => none

/-- The arm of `solidly`, which is taken before the address is looked at. -/
def isSolidly (k : Text) : Bool := String.ofList k == "solidly"

/-- `map.insert(protocol, addr)`. -/
def insertRouter (registry : RouterRegistry) (protocol : PoolProtocol) (addr : Address) :
    RouterRegistry :=
  { registry with map := fun p => if p = protocol then some addr else registry.map p }

/-- One round of the loop over the entries. -/
def addRouter (registry : RouterRegistry) (entry : Text × Text) : RouterRegistry :=
  let k := Text.lower entry.1
  let registry := if isSolidly k then { registry with solidlyMode := true } else registry
  match routerProtocol k, addressFromStr entry.2 with
  | some protocol, some addr => insertRouter registry protocol addr
  | _, _ => registry

/-- `build_router_registry`. The entries come in the order of their hash map. -/
def buildRouterRegistry (rawRouters : List (Text × Text)) : RouterRegistry :=
  rawRouters.foldl addRouter ⟨fun _ => none, false⟩

/-- The protocols that have a router key. -/
def routedProtocols : List PoolProtocol :=
  [.uniswapV2, .sushiSwapV2, .pancakeSwapV2, .baseSwapV2, .alienBaseV2, .aerodrome, .slipstream,
    .uniswapV3, .sushiSwapV3, .baseSwapV3, .pancakeSwapV3, .alienBaseV3]

/-- `router_registry.is_empty()`: only these protocols are ever inserted. -/
def registryIsEmpty (registry : RouterRegistry) : Bool :=
  routedProtocols.all fun protocol => (registry.map protocol).isNone

/-! ## Tokens -/

/-- `gecko_to_address_set`. -/
def geckoToAddressSet (tokens : List String) : Finset Address :=
  (tokens.filterMap Tracing.parseAddress).toFinset

/-- The prefilter of `main`, which the full filter makes again. -/
def dropBlacklisted (blacklisted : Finset Address) (pools : List RawPool) : List RawPool :=
  if blacklisted = ∅ then pools
  else pools.filter fun pool => pool.token0 ∉ blacklisted ∧ pool.token1 ∉ blacklisted

/-- The pools both of whose tokens are allowed; no allowed token is no filter. -/
def keepAllowed (gecko : Option (List String)) (pools : List RawPool) : List RawPool :=
  match gecko with
  | none => pools
  | some tokens =>
    let allowed := geckoToAddressSet tokens
    if allowed = ∅ then pools
    else pools.filter fun pool => pool.token0 ∈ allowed ∧ pool.token1 ∈ allowed

/-! ## Outside -/

/-- What the program asks for, and the orders it does not choose. -/
structure World where
  keccak : Keccak
  node : Node
  evm : Evm
  service : BatchService
  /-- The tokens in the order their tasks are joined. -/
  joined : List RawPool → List Address
  /-- The addresses in the order their code is fetched. -/
  fetchOrder : List RawPool → RouterRegistry → List Address
  schedule : (n : Nat) → Schedule n
  edgeOrder : (pools : List RawPool) → PathBuilder.EdgeOrder (PathBuilder.buildGraph pools)
  hasher : StepHasher
  /-- The addresses of `fetch_top_tokens`, unless it fails. -/
  gecko : Option (List String)
  /-- The time as it is written into the cache file. -/
  clock : Text

/-- The flags of the environment and the fields of the configuration. -/
structure Settings where
  skipPoolFilter : Bool
  forceRefilter : Bool
  geckoEnabled : Bool
  geckoTopTokens : Nat
  blacklistedTokens : List Text
  routers : List (Text × Text)
  startTokens : List Text
  maxHops : Nat
  maxPathsPerToken : Nat

/-- `blacklisted`: what is no address is left out. -/
def Settings.blacklisted (s : Settings) : Finset Address :=
  (s.blacklistedTokens.filterMap addressFromStr).toFinset

/-- `start_tokens`. -/
def Settings.starts (s : Settings) : List Address := s.startTokens.filterMap addressFromStr

/-! ## The full filter -/

/-- What `filter_pools_full` fails with. -/
inductive FilterError where
  | noRouters
  /-- With the protocols that would need one. -/
  | noMatchingRouters (required : List PoolProtocol)

/-- `filter_pools_full`; `none` is a panic of a worker. -/
def filterPoolsFull (w : World) (pools : List RawPool) (registry : RouterRegistry)
    (tokenLimit : Nat) (blacklisted : Finset Address) :
    Except FilterError (Option (List RawPool)) :=
  let pools := dropBlacklisted blacklisted pools
  let pools := if 0 < tokenLimit then keepAllowed w.gecko pools else pools
  let slotMap := constructSlotMap w.keccak w.service pools (w.joined pools)
  let required := (pools.map RawPool.protocol).filter fun protocol =>
    (protocolRouterKey protocol).isSome
  if registryIsEmpty registry then .error .noRouters
  else if required ≠ [] ∧ required.all fun protocol => (registry.map protocol).isNone then
    .error (.noMatchingRouters required)
  else
    let testable := pools.filter (isTestable slotMap)
    .ok (filterPoolsBySwap w.keccak w.node w.evm pools slotMap registry
      (w.fetchOrder testable registry) (w.schedule testable.length))

/-! ## The cache of the filter -/

/-- The file that is written after the filter has run. -/
def filterCacheContent (clock : Text) (pools : List RawPool) : Text :=
  "# SwapFilter safe pools — generated ".toList ++ clock ++ "\n# ".toList ++
    Text.ofNat pools.length ++ " pools passed REVM roundtrip test\n".toList ++
    (['\n'].intercalate (pools.map fun pool => formatAddress pool.address)) ++ ['\n']

/-- The addresses a file keeps; a file without any is as good as none. -/
def cachedSafe (contents : Text) : Option (Finset Address) :=
  let lines := (Text.lines contents).filter fun line => line ≠ [] ∧ line.head? ≠ some '#'
  let addrs := (lines.filterMap fun line => addressFromStr (Text.trim line)).toFinset
  if addrs = ∅ then none else some addrs

/-- What the filter comes to, with the cache file after it. -/
inductive Filtered where
  | kept (pools : List RawPool) (cacheFile : Option Text)
  | refused (error : FilterError)
  | panicked

/-- The filter of `main`, from the pools the cache was loaded with. -/
def filterPools (s : Settings) (w : World) (cacheFile : Option Text) (loaded : List RawPool) :
    Filtered :=
  let rawPools := dropBlacklisted s.blacklisted loaded
  if rawPools = [] ∨ s.skipPoolFilter then .kept rawPools cacheFile
  else
    match if s.forceRefilter then none else cacheFile.bind cachedSafe with
    | some safeAddrs =>
      .kept (rawPools.filter fun pool => pool.address ∈ safeAddrs) cacheFile
    | none =>
      match filterPoolsFull w rawPools (buildRouterRegistry s.routers)
        (if s.geckoEnabled then s.geckoTopTokens else 0) s.blacklisted with
      | .error error => .refused error
      | .ok none => .panicked
      | .ok (some pools) => .kept pools (some (filterCacheContent w.clock pools))

/-! ## Paths -/

/-- `CombinedFilter`; its loss bound is read by no check. -/
structure CombinedFilter where
  allowedTokens : Finset Address
  safePools : Finset Address

/-- `path_uses_allowed_tokens`. -/
def pathUsesAllowedTokens (path : SwapPath) (allowed : Finset Address) : Bool :=
  path.steps.all fun step => decide (step.tokenIn ∈ allowed) && decide (step.tokenOut ∈ allowed)

/-- `accept_path`. -/
def CombinedFilter.acceptPath (f : CombinedFilter) (path : SwapPath) : Bool :=
  let allSafe := path.steps.all fun step => decide (step.poolAddress ∈ f.safePools)
  let tokensOk := decide (f.allowedTokens = ∅) || pathUsesAllowedTokens path f.allowedTokens
  allSafe && tokensOk

/-- `filter_paths`. -/
def filterPaths (paths : List SwapPath) (filter : CombinedFilter) : List SwapPath :=
  paths.filter filter.acceptPath

/-- The arguments of `build_arb_paths`. -/
def builder (s : Settings) (w : World) (pools : List RawPool) : PathBuilder.Builder where
  pools := pools
  order := w.edgeOrder pools
  hasher := w.hasher
  maxHops := s.maxHops
  maxPathsPerToken := s.maxPathsPerToken

/-- The paths from the pools that are left. -/
def startPaths (s : Settings) (w : World) (pools : List RawPool) : List SwapPath :=
  let paths := if pools = [] ∨ s.starts = [] then [] else (builder s w pools).buildArbPaths s.starts
  if s.skipPoolFilter ∧ s.geckoEnabled ∧ paths ≠ [] then
    match w.gecko with
    | none => paths
    | some tokens =>
      let allowed := geckoToAddressSet tokens
      if allowed = ∅ then paths
      else filterPaths paths ⟨allowed, (pools.map RawPool.address).toFinset⟩
  else paths

/-- `to_pool_meta`. -/
def toPoolMeta (pool : RawPool) : PoolMeta where
  address := pool.address
  token0 := pool.token0
  token1 := pool.token1
  decimals0 := pool.decimals0
  decimals1 := pool.decimals1
  isV3 := pool.protocol.isV3
  fee := pool.fee
  tickSpacing := pool.tickSpacing
  protocol := pool.protocol

/-- What `start_pipeline` is given: the rest of the configuration, the paths and the pools. -/
def startSetup (base : Pipeline.Setup) (s : Settings) (w : World) (pools : List RawPool) :
    Pipeline.Setup :=
  { base with
    paths := startPaths s w pools
    metas := pools.map toPoolMeta }

end ArbBot.Startup
