import ArbBot.Accounts.Evm
import ArbBot.FilterRevm
import ArbBot.Lib.Abi
import Mathlib.Data.List.FinRange

/-!
# The swap filter

The startup filter that sells a test amount to each pool and buys back with the output, in the
virtual machine and through the pool's router (`filter_revm.rs`). A pool whose swaps fail, or lose
more than a twentieth, is dropped; one that cannot be tested is kept.

The pools are tested by workers. Each worker has a clone of the prefetched database and tests its
pools one after the other, and what a test commits stays in the clone. Which worker tests which
pools, and in which order, is an argument: the thread pool decides it at run time.
-/

namespace ArbBot.Accounts

open Lib

/-- `FILTER_ACCOUNT`. -/
def filterAccount : Address := 1

/-- `TOKEN_LOTS`. -/
def tokenLots : U256 := 0xFFFFFFFFFFFFFFFFFFFFFFFFFFFFFFFF

/-- `FILTER_GAS`. -/
def filterGas : UInt64 := 450000

/-- `TEST_AMOUNTS`. -/
def testAmounts : List U256 := [1000000000000000, 1000000000000, 1000000000, 1000000]

/-! ## Routers -/

/-- `RouterVariant`. -/
inductive RouterVariant where
  | v2
  | v3Basic
  | v3Deadline
  | aerodrome (stable : Bool)
  | solidly (stable : Bool)
  | slipstream

/-- `protocol_router_key`. -/
def protocolRouterKey : PoolProtocol → Option String
  | .uniswapV2 => some "uniswapv2"
  | .sushiSwapV2 => some "sushiswapv2"
  | .pancakeSwapV2 => some "pancakeswapv2"
  | .baseSwapV2 => some "baseswapv2"
  | .alienBaseV2 => some "alienbasev2"
  | .aerodrome => some "aerodrome"
  | .slipstream => some "slipstream"
  | .uniswapV3 => some "uniswapv3"
  | .sushiSwapV3 => some "sushiswapv3"
  | .baseSwapV3 => some "baseswapv3"
  | .pancakeSwapV3 => some "pancakeswapv3"
  | .alienBaseV3 => some "alienbasev3"
  | .algebraV1 | .balancerV2 | .curveTwoCrypto | .curveTriCrypto | .maverickV2 => none

/-- `RouterRegistry`. -/
structure RouterRegistry where
  map : PoolProtocol → Option Address
  solidlyMode : Bool

/-- `protocol_to_router`. -/
def protocolToRouter (protocol : PoolProtocol) (tickSpacing : Int32) (registry : RouterRegistry) :
    Option (Address × RouterVariant) := do
  let variant ← match protocol with
    | .uniswapV2 | .sushiSwapV2 | .pancakeSwapV2 | .baseSwapV2 | .alienBaseV2 =>
      some RouterVariant.v2
    | .aerodrome =>
      let stable := tickSpacing == 0
      if registry.solidlyMode then some (.solidly stable) else some (.aerodrome stable)
    | .slipstream => some .slipstream
    | .uniswapV3 | .alienBaseV3 | .pancakeSwapV3 => some .v3Basic
    | .sushiSwapV3 | .baseSwapV3 => some .v3Deadline
    | .algebraV1 | .balancerV2 | .curveTwoCrypto | .curveTriCrypto | .maverickV2 => none
  let router ← registry.map protocol
  return (router, variant)

/-! ## Calldata -/

/-- The calldata of a function: four bytes of the hash of its signature, and the arguments. -/
def abiEncode (keccak : Keccak) (signature : String) (args : List Abi.Arg) : Bytes :=
  (Bytes.ofWord (keccak (signature.toList.map fun c => UInt8.ofNat c.toNat))).take 4 ++
    Abi.encode args

/-- An address as an argument. -/
def addressArg (address : Address) : Abi.Arg := .word (address.setWidth 256)

/-- A flag as a word. -/
def boolWord (flag : Bool) : U256 := if flag then 1 else 0

/-- A list with one route, which is made of the given words. -/
def oneRoute (route : List U256) : Abi.Arg :=
  .dynamic (Bytes.ofWord 1 ++ Bytes.ofWords route)

/-- `approveCall`. -/
def approveCall (keccak : Keccak) (spender : Address) (amount : U256) : Bytes :=
  abiEncode keccak "approve(address,uint256)" [addressArg spender, .word amount]

/-- The fee of a pool as `uint24`. -/
def feeWord (pool : RawPool) : U256 :=
  if pool.fee.toNat < 16777216 then .ofNat 256 pool.fee.toNat else 3000

/-- The tick spacing of a pool as `int24`. -/
def tickSpacingWord (pool : RawPool) : U256 :=
  if -8388608 ≤ pool.tickSpacing.toInt ∧ pool.tickSpacing.toInt < 8388608 then
    .ofInt 256 pool.tickSpacing.toInt
  else 100

/-- `build_swap_calldata`. -/
def buildSwapCalldata (keccak : Keccak) (pool : RawPool) (variant : RouterVariant)
    (recipient : Address) (amountIn : U256) (zeroForOne : Bool) : Bytes :=
  let tokenIn := if zeroForOne then pool.token0 else pool.token1
  let tokenOut := if zeroForOne then pool.token1 else pool.token0
  let max : U256 := .allOnes 256
  match variant with
  | .v2 =>
    abiEncode keccak "swapExactTokensForTokens(uint256,uint256,address[],address,uint256)"
      [.word amountIn, .word 0,
        .dynamic (Abi.wordArray [tokenIn.setWidth 256, tokenOut.setWidth 256]),
        addressArg recipient, .word max]
  | .v3Basic =>
    abiEncode keccak
      "exactInputSingle((address,address,uint24,address,uint256,uint256,uint160))"
      [addressArg tokenIn, addressArg tokenOut, .word (feeWord pool), addressArg recipient,
        .word amountIn, .word 0, .word 0]
  | .v3Deadline =>
    abiEncode keccak
      "exactInputSingle((address,address,uint24,address,uint256,uint256,uint256,uint160))"
      [addressArg tokenIn, addressArg tokenOut, .word (feeWord pool), addressArg recipient,
        .word max, .word amountIn, .word 0, .word 0]
  | .aerodrome stable =>
    abiEncode keccak
      "swapExactTokensForTokens(uint256,uint256,(address,address,bool,address)[],address,uint256)"
      [.word amountIn, .word 0,
        oneRoute [tokenIn.setWidth 256, tokenOut.setWidth 256, boolWord stable, 0],
        addressArg recipient, .word max]
  | .solidly stable =>
    abiEncode keccak
      "swapExactTokensForTokens(uint256,uint256,(address,address,bool)[],address,uint256)"
      [.word amountIn, .word 0,
        oneRoute [tokenIn.setWidth 256, tokenOut.setWidth 256, boolWord stable],
        addressArg recipient, .word max]
  | .slipstream =>
    abiEncode keccak
      "exactInputSingle((address,address,int24,address,uint256,uint256,uint256,uint160))"
      [addressArg tokenIn, addressArg tokenOut, .word (tickSpacingWord pool), addressArg recipient,
        .word max, .word amountIn, .word 0, .word 0]

/-- `decode_swap_output`; `none` is a panic. The end of the array wraps past 64 bits, as in the
release build. -/
def decodeSwapOutput (data : Bytes) : RouterVariant → Option U256
  | .v2 | .aerodrome _ | .solidly _ =>
    if data.length < 96 then some 0
    else do
      let n ← toU64 (data.wordAt 32)
      let stop := 64 + n * 32
      if n = 0 ∨ data.length < stop.toNat then some 0
      else if stop < 32 then none
      else some (data.wordAt (stop.toNat - 32))
  | .v3Basic | .v3Deadline | .slipstream =>
    if data.length < 32 then some 0 else some (data.wordAt 0)

/-! ## Balance slots -/

/-- `SlotLayout`. -/
inductive SlotLayout where
  | solidity
  | vyper
  deriving DecidableEq

/-- `mapping_slot`. -/
def mappingSlot (keccak : Keccak) (holder : Address) (slotIdx : UInt64) : U256 :=
  keccak (Bytes.ofWord (holder.setWidth 256) ++ Bytes.ofWord (.ofNat 256 slotIdx.toNat))

/-- `mapping_slot_vyper`. -/
def mappingSlotVyper (keccak : Keccak) (holder : Address) (slotIdx : UInt64) : U256 :=
  keccak (Bytes.ofWord (.ofNat 256 slotIdx.toNat) ++ Bytes.ofWord (holder.setWidth 256))

/-- `compute_slot`. -/
def computeSlot (keccak : Keccak) (holder : Address) (slotIdx : UInt64) : SlotLayout → U256
  | .solidity => mappingSlot keccak holder slotIdx
  | .vyper => mappingSlotVyper keccak holder slotIdx

/-- The balance slots that were detected. -/
abbrev SlotMap := Address → Option (UInt64 × SlotLayout)

/-! ## Tests -/

/-- What comes of a test: `Ok`, `Err` with its reason, or a panic. -/
inductive Verdict where
  | ok
  | err (reason : String)
  | panicked
  deriving DecidableEq

/-- A test, with what it does to the database it is given: injections, and calls of
`evm_call_commit` from the filter's account, without value. -/
inductive DbTest (α : Type) : Type
  | done (a : α)
  | injectSlot (address : Address) (slot value : U256) (next : DbTest α)
  | evmCall (dst : Address) (calldata : Bytes) (next : Option Bytes → DbTest α)

namespace DbTest

variable {α β : Type}

protected def bind : DbTest α → (α → DbTest β) → DbTest β
  | .done a, f => f a
  | .injectSlot address slot value next, f => .injectSlot address slot value (next.bind f)
  | .evmCall dst calldata next, f => .evmCall dst calldata fun output =>
      (next output).bind f

instance : Monad DbTest where
  pure := DbTest.done
  bind := DbTest.bind

/-- `db.inject_slot`. -/
def inject (address : Address) (slot value : U256) : DbTest Unit :=
  .injectSlot address slot value (.done ())

/-- `evm_call_commit(db, FILTER_ACCOUNT, …, U256::ZERO)`. -/
def call (dst : Address) (calldata : Bytes) : DbTest (Option Bytes) :=
  .evmCall dst calldata .done

end DbTest

/-- `saturating_mul`. -/
def saturatingMulU256 (x y : U256) : U256 :=
  if x.toNat * y.toNat < 2 ^ 256 then x * y else .allOnes 256

/-- The loop over the test amounts, with the reason to give when every amount has failed. -/
def tryAmounts (keccak : Keccak) (pool : RawPool) (s0 s1 : U256) (router : Address)
    (variant : RouterVariant) : List U256 → String → DbTest Verdict
  | [], lastAbErr => return .err lastAbErr
  | testAmount :: amounts, _ => do
    DbTest.inject pool.token0 s0 tokenLots
    DbTest.inject pool.token1 s1 tokenLots
    let cdAb := buildSwapCalldata keccak pool variant filterAccount testAmount true
    match ← DbTest.call router cdAb with
    | none => tryAmounts keccak pool s0 s1 router variant amounts "swap_ab_failed"
    | some outAb =>
      match decodeSwapOutput outAb variant with
      | none => return .panicked
      | some amtB =>
        if amtB = 0 then
          tryAmounts keccak pool s0 s1 router variant amounts "swap_ab_zero_output"
        else
          let cdBa := buildSwapCalldata keccak pool variant filterAccount amtB false
          match ← DbTest.call router cdBa with
          | none => return .err "swap_ba_failed"
          | some outBa =>
            match decodeSwapOutput outBa variant with
            | none => return .panicked
            | some amtABack =>
              if saturatingMulU256 testAmount 95 / 100 ≤ amtABack then return .ok
              else return .err "roundtrip_below_95pct"

/-- `test_pool_filter_reason`. -/
def testPoolFilterReason (keccak : Keccak) (pool : RawPool) (slotMap : SlotMap)
    (registry : RouterRegistry) : DbTest Verdict :=
  match slotMap pool.token0, slotMap pool.token1 with
  | none, _ => return .err "missing_slot_token0"
  | some _, none => return .err "missing_slot_token1"
  | some (idx0, layout0), some (idx1, layout1) =>
    if (protocolRouterKey pool.protocol).isNone then return .ok
    else
      match protocolToRouter pool.protocol pool.tickSpacing registry with
      | none => return .err "missing_router_config"
      | some (router, variant) => do
        let s0 := computeSlot keccak filterAccount idx0 layout0
        let s1 := computeSlot keccak filterAccount idx1 layout1
        DbTest.inject pool.token0 s0 tokenLots
        DbTest.inject pool.token1 s1 tokenLots
        let approve := approveCall keccak router tokenLots
        if (← DbTest.call pool.token0 approve).isNone then return .err "approve_token0_failed"
        if (← DbTest.call pool.token1 approve).isNone then return .err "approve_token1_failed"
        tryAmounts keccak pool s0 s1 router variant testAmounts "swap_ab_failed"

/-! ## The filter -/

section Filter

variable (keccak : Keccak) (node : Node) (evm : Evm)

/-- `evm_call_commit`: the output of a call that succeeds, and the database after it. -/
def evmCallCommit (db : BlockStateDb) (src dst : Address) (calldata : Bytes) (value : U256) :
    Option Bytes × BlockStateDb :=
  let committed := db.transactCommit keccak node src
    (evm ⟨src, dst, calldata, value, filterGas, 0⟩)
  (committed.1.bind ExecutionResult.output, committed.2)

/-- A test on a database. -/
def DbTest.run {α : Type} : DbTest α → BlockStateDb → α × BlockStateDb
  | .done a, db => (a, db)
  | .injectSlot address slot value next, db =>
    next.run (db.injectSlot keccak node address slot value)
  | .evmCall dst calldata next, db =>
    let result := evmCallCommit keccak node evm db filterAccount dst calldata 0
    (next result.1).run result.2

/-- The pools that are tested. -/
def isTestable (slotMap : SlotMap) (pool : RawPool) : Bool :=
  ((slotMap pool.token0).isSome && (slotMap pool.token1).isSome) ||
    (protocolRouterKey pool.protocol).isNone

/-- The addresses whose code is fetched, in the order their set is gone through. -/
structure IsFetchOrder (addrs : List Address) (testable : List RawPool)
    (registry : RouterRegistry) : Prop where
  nodup : addrs.Nodup
  mem : ∀ address, address ∈ addrs ↔
    (∃ pool ∈ testable, address = pool.address ∨ address = pool.token0 ∨ address = pool.token1) ∨
      ∃ protocol, registry.map protocol = some address

/-- The database the workers clone: the filter's account with 1000 ether, and what is fetched ahead
for the pools. -/
def prefetched (addrs : List Address) (testable : List RawPool) : BlockStateDb :=
  let db := BlockStateDb.new.injectAccount filterAccount
    ⟨1000000000000000000000, 0, keccakEmpty keccak, none⟩
  let db := addrs.foldl BlockStateDb.trackPool db
  let db := db.prefetchPoolCodes keccak node
  let db := db.prefetchTokenSlots keccak node
  let db := db.prefetchV3Slots keccak node
  let reserves := BlockStateDb.fetched node
    (testable.map fun pool => (pool.address, StateDb.v2ReservesSlot))
  db.updateSlots keccak (reserves.filter fun write => write.2.2 ≠ 0)

/-- A worker: its database, and the pools it tests in turn. -/
def runWorker (slotMap : SlotMap) (registry : RouterRegistry) :
    BlockStateDb → List RawPool → List Verdict
  | _, [] => []
  | db, pool :: pools =>
    let tested := (testPoolFilterReason keccak pool slotMap registry).run keccak node evm db
    tested.1 :: runWorker slotMap registry tested.2 pools

/-- Which worker tests which pools, and in which order. Each pool is tested once. -/
structure Schedule (n : Nat) where
  workers : List (List (Fin n))
  perm : workers.flatten.Perm (List.finRange n)

/-- `UNTESTABLE_REASONS`. -/
def untestableReasons : List String :=
  ["missing_slot_token0", "missing_slot_token1", "missing_router_config"]

/-- A pool with this verdict is kept. -/
def Verdict.keeps : Verdict → Bool
  | .ok => true
  | .err reason => untestableReasons.contains reason
  | .panicked => false

/-- The merge of the results; `none` is a panic, which any worker's panic becomes. -/
def mergeResults (results : List (RawPool × Verdict)) (untestable : List RawPool) :
    Option (List RawPool) :=
  if results.any fun result => result.2 = .panicked then none
  else some ((results.filter fun result => result.2.keeps).map Prod.fst ++ untestable)

/-- `filter_pools_by_swap`. The results are collected in the order of the pools. -/
def filterPoolsBySwap (pools : List RawPool) (slotMap : SlotMap) (registry : RouterRegistry)
    (addrs : List Address)
    (schedule : Schedule (pools.filter (isTestable slotMap)).length) : Option (List RawPool) :=
  let testable := pools.filter (isTestable slotMap)
  let untestable := pools.filter fun pool => !isTestable slotMap pool
  let db := prefetched keccak node addrs testable
  let verdicts := schedule.workers.flatMap fun worker =>
    worker.zip (runWorker keccak node evm slotMap registry db (worker.map testable.get))
  let results := (List.finRange testable.length).map fun i =>
    (testable.get i, (verdicts.lookup i).getD .panicked)
  mergeResults results untestable

end Filter

end ArbBot.Accounts
