import ArbBot.PipelineEvents
import ArbBot.Tracing

/-!
# The market state worker

`market_state.rs`: the worker traces each block and writes the diffs of the tracked pools into the
shared database. The block number that is stored with the database, which only lazy requests use,
is left out.
-/

namespace ArbBot

namespace MarketState

open Tracing

/-- The diffs of one address, written if the address is tracked. -/
def applyAddress (diffs : BlockTraceDiffs) (state : BlockStateDb × List Address)
    (address : Address) : BlockStateDb × List Address :=
  if address ∈ state.1.trackedPools then
    match diffs.getAddressDiffs address with
    | some slots =>
      (slots.entries.foldl (fun db entry => db.updateSlot address entry.1 entry.2) state.1,
        state.2 ++ [address])
    | none => state
  else state

/-- The diffs of a block, written to the database, with the addresses that were updated. -/
def applyDiffs (db : BlockStateDb) (diffs : BlockTraceDiffs) : BlockStateDb × List Address :=
  diffs.touchedAddresses.foldl (applyAddress diffs) (db, [])

/-- A block of the stream: its number, and what the node answers about it. -/
structure Block where
  number : UInt64
  node : Node

/-- The worker on a new block. A block that cannot be traced leaves the database as it is. -/
def processBlock (db : BlockStateDb) (block : Block) : BlockStateDb × Option PoolsTouched :=
  match traceBlockDiffs block.node block.number db.trackedPools with
  | .error _ => (db, none)
  | .ok diffs =>
    let (db, touched) := applyDiffs db diffs
    (db, if touched = [] then none else some ⟨block.number, touched⟩)

/-- The worker over a sequence of blocks: those it catches up on, and those of the stream. -/
def run (db : BlockStateDb) (blocks : List Block) : BlockStateDb :=
  blocks.foldl (fun db block => (processBlock db block).1) db

end MarketState

end ArbBot
