import ArbBot.Accounts.SimDb

/-!
# The workers around the shared database

Any number of simulator workers, each with its private copy while it works on a path, and the
database they share. A step is what one worker does under one lock, or one request of its own; the
steps come in any order. What else happens under the write lock is a parameter: a type of
operations, with what each does to the database.
-/

namespace ArbBot.Accounts

open Lib

/-- The shared database, and the copies of the workers that have one. -/
structure System (ι : Type) where
  db : BlockStateDb
  copies : ι → Option SimDb

/-- The steps: an operation on the shared database, and what `simulate_and_optimize` does in turn,
each request with the node as it is then. -/
inductive Step (ι ω : Type) where
  | shared (op : ω)
  | snapshot (worker : ι)
  | basic (worker : ι) (node : Node) (address : Address)
  | storage (worker : ι) (node : Node) (address : Address) (index : U256)
  | writeBack (worker : ι)

namespace System

variable {ι ω : Type} [DecidableEq ι]

/-- The system with a worker's copy replaced, if there is one. -/
def modifyCopy (s : System ι) (worker : ι) (f : SimDb → SimDb) : System ι :=
  { s with copies := Function.update s.copies worker ((s.copies worker).map f) }

/-- The system after a step. A worker without a copy has nothing to fetch for or write back. -/
def step (keccak : Keccak) (perform : ω → BlockStateDb → BlockStateDb) (s : System ι) :
    Step ι ω → System ι
  | .shared op => { s with db := perform op s.db }
  | .snapshot worker =>
    { s with copies := Function.update s.copies worker (some (.snapshot s.db)) }
  | .basic worker node address =>
    s.modifyCopy worker fun sim => (sim.basic keccak node address).2
  | .storage worker node address index =>
    s.modifyCopy worker fun sim => (sim.storage keccak node address index).2
  | .writeBack worker =>
    match s.copies worker with
    | none => s
    | some sim => { s with db := sim.writeBack s.db }

/-- The system after a sequence of steps. -/
def run (keccak : Keccak) (perform : ω → BlockStateDb → BlockStateDb) (s : System ι)
    (steps : List (Step ι ω)) : System ι :=
  steps.foldl (step keccak perform) s

end System

/-! ## Operations -/

/-- The writes to the shared database while the workers run. -/
inductive Write where
  | updateSlot (address : Address) (slot value : U256)
  | injectSlot (node : Node) (address : Address) (slot value : U256)
  | commit (changes : Address → Option BlockStateDb.EvmAccount)

/-- What a write does. -/
def Write.perform (keccak : Keccak) : Write → BlockStateDb → BlockStateDb
  | .updateSlot address slot value, db => db.updateSlot keccak address slot value
  | .injectSlot node address slot value, db => db.injectSlot keccak node address slot value
  | .commit changes, db => db.commit keccak changes

/-- What is done to the shared database over its life: what fills it at startup, the diffs of
blocks, and the calls of the virtual machine. -/
inductive Upkeep where
  | trackPool (pool : Address)
  | injectAccount (address : Address) (info : AccountInfo)
  | updateSlot (address : Address) (slot value : U256)
  | storage (node : Node) (address : Address) (index : U256)
  | basic (node : Node) (address : Address)
  | applyStateDiffs (diffs : List (Address × List (U256 × U256)))
  | prefetchPoolCodes (node : Node)
  | prefetchTokenSlots (node : Node)
  | prefetchV3Slots (node : Node)
  | prefetchV3TickData (node : Node) (pools : List BlockStateDb.V3Pool)

/-- What an operation does. -/
def Upkeep.perform (keccak : Keccak) : Upkeep → BlockStateDb → BlockStateDb
  | .trackPool pool, db => db.trackPool pool
  | .injectAccount address info, db => db.injectAccount address info
  | .updateSlot address slot value, db => db.updateSlot keccak address slot value
  | .storage node address index, db => (db.storage keccak node address index).2
  | .basic node address, db => (db.basic keccak node address).2
  | .applyStateDiffs diffs, db => db.applyStateDiffs keccak diffs
  | .prefetchPoolCodes node, db => db.prefetchPoolCodes keccak node
  | .prefetchTokenSlots node, db => db.prefetchTokenSlots keccak node
  | .prefetchV3Slots node, db => db.prefetchV3Slots keccak node
  | .prefetchV3TickData node pools, db => db.prefetchV3TickData keccak node pools

end ArbBot.Accounts
