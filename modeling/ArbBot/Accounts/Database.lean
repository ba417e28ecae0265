import ArbBot.Accounts.SimDb
import Mathlib.Data.List.Nodup

/-!
# Databases of the virtual machine

The calls a run of the virtual machine makes, and what a database answers to a sequence of them.
Each lookup of a code goes through the accounts in an order the hash map chooses, so a database may
answer one sequence in several ways. The hash of a block is always zero and is left out.
-/

namespace ArbBot.Accounts

open Lib

/-- A call of `Database`. -/
inductive Call where
  | basic (address : Address)
  | storage (address : Address) (index : U256)
  | codeByHash (codeHash : U256)
  deriving DecidableEq

/-- What is returned. -/
inductive Answer where
  | info (info : AccountInfo)
  | value (value : U256)
  | code (code : Bytes)
  deriving DecidableEq

/-- The accounts that are present, each one once. -/
structure IsOrder (order : List Address) (accounts : Address → Option Account) : Prop where
  nodup : order.Nodup
  mem : ∀ address, address ∈ order ↔ (accounts address).isSome

/-- The two databases behind one interface: the accounts of a state, and its answer to a call with
the state it leaves. -/
structure Database (σ : Type) where
  accounts : σ → Address → Option Account
  answer : List Address → σ → Call → Answer × σ

/-- The answers to the calls, one after the other. -/
inductive Database.Answers {σ : Type} (d : Database σ) : σ → List Call → List Answer → Prop
  | nil (s : σ) : d.Answers s [] []
  | cons {s : σ} {call : Call} {calls : List Call} {answers : List Answer} {order : List Address} :
      IsOrder order (d.accounts s) → d.Answers (d.answer order s call).2 calls answers →
      d.Answers s (call :: calls) ((d.answer order s call).1 :: answers)

/-- `BlockStateDB` as a `Database`. -/
def BlockStateDb.database (keccak : Keccak) (node : Node) : Database BlockStateDb where
  accounts db := db.accounts
  answer order db
    | .basic address => (.info (db.basic keccak node address).1, (db.basic keccak node address).2)
    | .storage address index =>
      (.value (db.storage keccak node address index).1, (db.storage keccak node address index).2)
    | .codeByHash codeHash => (.code (codeByHash keccak order db.accounts codeHash), db)

/-- `SimDb` as a `Database`. -/
def SimDb.database (keccak : Keccak) (node : Node) : Database SimDb where
  accounts sim := sim.accounts
  answer order sim
    | .basic address => (.info (sim.basic keccak node address).1, (sim.basic keccak node address).2)
    | .storage address index =>
      (.value (sim.storage keccak node address index).1,
        (sim.storage keccak node address index).2)
    | .codeByHash codeHash => (.code (codeByHash keccak order sim.accounts codeHash), sim)

/-! ## The quoter's accounts -/

def quoterAddress : Address := 0x1000
def callerAddress : Address := 0xCA11

/-- `deploy_into`: the quoter's code, and a caller with 1000 ether for gas. -/
def deployInto (keccak : Keccak) (quoterBytecode : Option Bytes) (db : BlockStateDb) :
    Option BlockStateDb :=
  quoterBytecode.map fun bytecode =>
    (db.injectAccount quoterAddress ⟨0, 1, keccak bytecode, some bytecode⟩).injectAccount
      callerAddress ⟨1000000000000000000000, 0, keccakEmpty keccak, none⟩

end ArbBot.Accounts
