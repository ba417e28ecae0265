import ArbBot.Lib.Bytes
import ArbBot.SwapTypes

/-!
# Pool discovery

The crawler of a factory's logs (`pool_loader.rs`): it asks for the logs of one range of blocks after
the other, and makes a pool of each log it can decode. Sums of block numbers wrap, as in the release
build.
-/

namespace ArbBot.PoolDiscovery

open Lib

/-- `FactorySpec`, as far as the crawler reads it. -/
structure FactorySpec where
  address : Address
  protocol : PoolProtocol
  fromBlock : UInt64

/-- What is read of a log. -/
structure EventLog where
  topics : List U256
  data : Bytes

/-- `Filter`: one address, one signature, and a range of blocks. -/
structure LogFilter where
  address : Address
  topic : U256
  fromBlock : UInt64
  toBlock : UInt64

/-- `provider.get_logs`, which can fail. -/
abbrev LogProvider := LogFilter → Option (List EventLog)

/-- `PAIR_CREATED_TOPIC`. -/
def pairCreatedTopic : U256 := 0x0d3648bd0f6ba80134a33ba9275ac585d9d315f0ad8355cddefde31afa28d0e9

/-- `POOL_CREATED_TOPIC`. -/
def poolCreatedTopic : U256 := 0x783cca1c0412dd0d695e784568c96da2e9c22ff989357a2e8b1d9b2b4e6b7118

/-- The topic the crawler asks for. -/
def FactorySpec.topic (spec : FactorySpec) : U256 :=
  if spec.protocol.isV3 then poolCreatedTopic else pairCreatedTopic

/-! ## One log -/

/-- The fee of a topic: its last three bytes, and the one before them at their first's place. -/
def feeOfTopic (topic : U256) : UInt32 :=
  UInt32.ofNat (topic.toNat % 16777216 * 256) >>> 8 |||
    UInt32.ofNat (topic.toNat / 16777216 % 256) <<< 16

/-- `decode_log`. -/
def decodeLog (log : EventLog) (spec : FactorySpec) : Option RawPool :=
  match log.topics with
  | _ :: topic1 :: topic2 :: topics =>
    let token0 : Address := topic1.setWidth 160
    let token1 : Address := topic2.setWidth 160
    if spec.protocol.isV3 then
      let fee := match topics with
        | topic3 :: _ => feeOfTopic topic3
        | [] => 500
      if log.data.length < 64 then none
      else some {
        address := (log.data.wordAt 32).setWidth 160
        token0 := token0
        token1 := token1
        decimals0 := 18
        decimals1 := 18
        fee := fee
        tickSpacing := .ofBitVec ((log.data.wordAt 0).setWidth 32)
        protocol := spec.protocol }
    else if log.data.length < 32 then none
    else some {
      address := (log.data.wordAt 0).setWidth 160
      token0 := token0
      token1 := token1
      decimals0 := 18
      decimals1 := 18
      fee := 30
      tickSpacing := 0
      protocol := spec.protocol }
  | _ => none

/-! ## The crawl -/

/-- The request of a round. -/
def chunkFilter (spec : FactorySpec) (toBlock chunkSize first : UInt64) : LogFilter :=
  ⟨spec.address, spec.topic, first, min (first + chunkSize - 1) toBlock⟩

/-- The pools of a round; a request that fails has none. -/
def chunkPools (provider : LogProvider) (spec : FactorySpec) (filter : LogFilter) :
    List RawPool :=
  ((provider filter).getD []).filterMap fun log => decodeLog log spec

/-- The loop, for as many rounds as there is fuel; `none` when it runs out. -/
def crawlFrom (provider : LogProvider) (spec : FactorySpec) (toBlock chunkSize : UInt64) :
    Nat → UInt64 → List RawPool → Option (List RawPool)
  | 0, _, _ => none
  | fuel + 1, first, pools =>
    if first ≤ toBlock then
      let filter := chunkFilter spec toBlock chunkSize first
      crawlFrom provider spec toBlock chunkSize fuel (filter.toBlock + 1)
        (pools ++ chunkPools provider spec filter)
    else some pools

/-- `crawl_factory_logs`. -/
def crawlFactoryLogs (provider : LogProvider) (spec : FactorySpec) (toBlock chunkSize : UInt64)
    (fuel : Nat) : Option (List RawPool) :=
  crawlFrom provider spec toBlock chunkSize fuel spec.fromBlock []

end ArbBot.PoolDiscovery
