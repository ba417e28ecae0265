import ArbBot.StateDb

/-!
# The simulation database

A private copy of the loaded storage for the runs of one path (`sim_db.rs`). A slot that is not in
the copy is fetched from the node and kept; after the runs the fetched slots are merged into the
shared database. The node answers every request: a failed one reads as zero. Codes, balances and
nonces are left out, so an account is its storage.
-/

namespace ArbBot

/-- The storage a simulation works on. -/
structure SimDb where
  accounts : Address → Option (U256 → Option U256)

namespace SimDb

/-- `snapshot`. -/
def snapshot (db : StateDb) : SimDb := ⟨db.accounts⟩

/-- The value of a slot in the copy. -/
def slot (sim : SimDb) (address : Address) (index : U256) : Option U256 := do
  let storage ← sim.accounts address
  storage index

/-- `basic`: an account that is asked for is in the copy afterwards. -/
def basic (sim : SimDb) (address : Address) : SimDb where
  accounts a := if a = address then some ((sim.accounts a).getD fun _ => none) else sim.accounts a

/-- `storage`: the slot's value, and the copy with it. -/
def storage (fetch : Address → U256 → U256) (sim : SimDb) (address : Address) (index : U256) :
    U256 × SimDb :=
  match sim.slot address index with
  | some value => (value, sim)
  | none =>
    let value := fetch address index
    (value,
      { accounts := fun a =>
          if a = address then
            let storage := (sim.accounts a).getD fun _ => none
            some fun k => if k = index then some value else storage k
          else sim.accounts a })

/-- What a run of the virtual machine asks the database for. -/
inductive Access where
  | basic (address : Address)
  | storage (address : Address) (index : U256)
  deriving DecidableEq

/-- The copy after one access. -/
def access (fetch : Address → U256 → U256) (sim : SimDb) : Access → SimDb
  | .basic address => sim.basic address
  | .storage address index => (sim.storage fetch address index).2

/-- The copy after a sequence of accesses. -/
def run (fetch : Address → U256 → U256) (sim : SimDb) (accesses : List Access) : SimDb :=
  accesses.foldl (access fetch) sim

/-- `write_back`: what the shared database has loaded stays. -/
def writeBack (sim : SimDb) (db : StateDb) : StateDb where
  accounts a :=
    match sim.accounts a with
    | none => db.accounts a
    | some storage =>
      let entry := (db.accounts a).getD fun _ => none
      some fun k => entry k <|> storage k

end SimDb

end ArbBot
