import ArbBot.MarketState
import ArbBot.SearcherRun
import ArbBot.SearcherSeed
import ArbBot.SimDb
import ArbBot.GasStation

/-!
# The feed of the searcher

The loop of `MarketStateWorker::run` (`market_state.rs`) beside the searcher it feeds. At its start
the worker replays the blocks since the last one its database was synced to, and sends nothing; then
it takes the blocks of the stream, and sends the pools each one updated. The write of a block's diffs
holds the lock of the database, so it is one step; the send that follows waits for room in the
channel, and is another. The mempool listener sends on the same channel, and the simulators write
what they fetched into the same database.

All the while the searcher may still be at `seed_initial_rates`, before its loop: it rates the pools
that are not priced from their reserves, writes the reserves of the others batch by batch, as the
answers come in, and rates these at the end.

The set beside the state says for which pools the rates are not those of the database though no
message is on its way: the database was changed by the replay, a simulator or the seed, or they were
rated by the seed without their reserves.
-/

namespace ArbBot.MarketFeed

open Lib MarketState

/-- Where the market state worker stands. -/
inductive Pc where
  | catchingUp (left : List Block)
  | streaming
  | sending (event : PoolsTouched)
  | stopped

/-- What the searcher has left of its seed: all of it, the batches from here on, or none. -/
inductive Seeding where
  | waiting
  | fetching (pools : List Address) (left : List (List Address))
  | done

/-- The worker with the searcher, its channel, and what they share. -/
structure Feed where
  loop : Searcher.Loop
  seeding : Seeding
  trackedPools : Finset Address
  pancakeV3Pools : Finset Address
  gasStation : GasStation
  pc : Pc
  unannounced : Set Address

/-- The shared database. -/
def Feed.db (f : Feed) : BlockStateDb := ⟨f.loop.memory.db, f.trackedPools, f.pancakeV3Pools⟩

def Feed.setDb (f : Feed) (db : StateDb) : Feed :=
  { f with loop := { f.loop with memory := { f.loop.memory with db := db } } }

/-- The worker has written a block, and stands where it goes on. -/
def Feed.write (f : Feed) (block : Block) (pc : Pc) : Feed :=
  { f.setDb (processBlock f.db block).1.toStateDb with pc := pc }

/-- The pools some slot of which differs. -/
def changed (db db' : StateDb) : Set Address := {pool | db.slot pool ≠ db'.slot pool}

/-- The pools of the events a searcher has taken between two states of its log. -/
def takenBetween (log log' : List Searcher.Entry) : Set Address :=
  {pool | ∃ pools, .received pools ∈ log'.drop log.length ∧ pool ∈ pools}

/-- The blocks the worker replays when the chain head is `head`: those after the last synced one,
when one is known. -/
def catchUpBlocks (lastSynced : UInt64) (head : Option UInt64) (node : UInt64 → Tracing.Node) :
    List Block :=
  match head with
  | none => []
  | some head =>
    if 0 < lastSynced ∧ lastSynced < head then
      (List.range (head.toNat - lastSynced.toNat)).map fun i =>
        ⟨lastSynced + 1 + UInt64.ofNat i, node (lastSynced + 1 + UInt64.ofNat i)⟩
    else []

/-- The start of the searcher, which has its rates to seed, and of the worker, which has to catch up
with the chain. -/
def Feed.start (m : Memory) (trackedPools pancakeV3Pools : Finset Address) (g : GasStation)
    (lastSynced : UInt64) (head : Option UInt64) (node : UInt64 → Tracing.Node)
    (unannounced : Set Address) : Feed :=
  ⟨.start m, .waiting, trackedPools, pancakeV3Pools, g,
    .catchingUp (catchUpBlocks lastSynced head node), unannounced⟩

/-- Who moves. -/
inductive Label where
  | seedSkip
  | seedRates (order : List Address)
  | seedChunk (chunk : List Address) (service : Searcher.SeedService)
  | seeded
  | catchUp (block : Block)
  | caughtUp
  | block (block : Block) (baseFee gasUsed gasLimit : UInt64)
  /-- The receiver lagged behind, or the event is of another kind. -/
  | skip
  | send
  | closed
  | disconnect
  | mempool (event : PoolsTouched)
  | search
  | writeBack (sim : SimDb)

section

variable (s : Searcher) (quote : V3Quote) (capacity : Nat)

/-- A step of the market state worker, the searcher, or another writer. -/
inductive Step : Feed → Label → Feed → Prop
  /-- There is no pool to rate, or no node to ask. -/
  | seedSkip {f : Feed} : f.seeding = .waiting → Step f .seedSkip { f with seeding := .done }
  /-- In the order of the hash map of the pools. -/
  | seedRates {f : Feed} {order : List Address} : f.seeding = .waiting →
      (∀ pool, pool ∈ order ↔ (s.poolMeta pool).isSome) → order.Nodup →
      Step f (.seedRates order) { f with
        loop := { f.loop with memory := { f.loop.memory with
          estimator := (s.passthroughPools order).foldl (s.seedPassthrough f.loop.memory.db)
            f.loop.memory.estimator } }
        seeding := .fetching (s.slot8Pools order) (Searcher.chunksOf 200 (s.slot8Pools order))
        unannounced := f.unannounced ∪ {pool | pool ∈ s.passthroughPools order} }
  | seedChunk {f : Feed} {pools chunk : List Address} {left : List (List Address)}
      {service : Searcher.SeedService} : f.seeding = .fetching pools (chunk :: left) →
      Step f (.seedChunk chunk service)
        { f.setDb (Searcher.seedChunk service f.loop.memory.db chunk) with
          seeding := .fetching pools left
          unannounced := f.unannounced ∪
            changed f.loop.memory.db (Searcher.seedChunk service f.loop.memory.db chunk) }
  | seeded {f : Feed} {pools : List Address} : f.seeding = .fetching pools [] →
      Step f .seeded { f with
        loop := { f.loop with memory := s.updateRatesForPools quote f.loop.memory pools }
        seeding := .done
        unannounced := f.unannounced \ {pool | pool ∈ pools} }
  | catchUp {f : Feed} {block : Block} {rest : List Block} : f.pc = .catchingUp (block :: rest) →
      Step f (.catchUp block) { f.write block (.catchingUp rest) with
        unannounced :=
          f.unannounced ∪ changed f.loop.memory.db (processBlock f.db block).1.toStateDb }
  | caughtUp {f : Feed} : f.pc = .catchingUp [] → Step f .caughtUp { f with pc := .streaming }
  | block {f : Feed} {block : Block} {baseFee gasUsed gasLimit : UInt64} : f.pc = .streaming →
      Step f (.block block baseFee gasUsed gasLimit)
        { f.write block (((processBlock f.db block).2.map Pc.sending).getD .streaming) with
          gasStation := f.gasStation.updateFromBlock baseFee gasUsed gasLimit }
  | skip {f : Feed} : f.pc = .streaming → Step f .skip f
  | send {f : Feed} {event : PoolsTouched} : f.pc = .sending event → f.loop.pc ≠ .stopped →
      f.loop.channel.length < capacity →
      Step f .send { f with
        loop := { f.loop with channel := f.loop.channel ++ [event] }
        pc := .streaming }
  | sendClosed {f : Feed} {event : PoolsTouched} : f.pc = .sending event → f.loop.pc = .stopped →
      Step f .send { f with pc := .stopped }
  | closed {f : Feed} : f.pc = .streaming → Step f .closed { f with pc := .stopped }
  /-- Both senders of the searcher's channel are gone. -/
  | disconnect {f : Feed} : f.pc = .stopped →
      Step f .disconnect { f with loop := { f.loop with closed := true } }
  | mempool {f : Feed} {event : PoolsTouched} : event.blockNumber = 0 → f.loop.closed = false →
      f.loop.channel.length < capacity →
      Step f (.mempool event) { f with
        loop := { f.loop with channel := f.loop.channel ++ [event] } }
  | search {f : Feed} {loop : Searcher.Loop} : f.seeding = .done →
      Searcher.Work s quote f.loop loop →
      Step f .search { f with
        loop := loop
        unannounced := f.unannounced \ takenBetween f.loop.log loop.log }
  | writeBack {f : Feed} {sim : SimDb} :
      Step f (.writeBack sim) { f.setDb (sim.writeBack f.loop.memory.db) with
        unannounced := f.unannounced ∪
          changed f.loop.memory.db (sim.writeBack f.loop.memory.db) }

end

end ArbBot.MarketFeed
