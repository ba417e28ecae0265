import ArbBot.Accounts.BlockStateDb

/-!
# The simulation database with its accounts

The private copy a simulation works on (`sim_db.rs`), and the merge of what it has fetched. Its
requests are its own: an answer with less than two bytes of code counts as none, and the record of
an account without code keeps the default's empty code.
-/

namespace ArbBot.Accounts

/-- `SimDb`. -/
structure SimDb where
  accounts : Address → Option Account

namespace SimDb

variable (keccak : Keccak) (node : Node)

/-- `snapshot`. -/
def snapshot (db : BlockStateDb) : SimDb := ⟨db.accounts⟩

/-- The copy with an account in place of what it has at the address. -/
def set (sim : SimDb) (address : Address) (account : Account) : SimDb :=
  ⟨Function.update sim.accounts address (some account)⟩

/-- The value of a slot in the copy. -/
def slot (sim : SimDb) (address : Address) (slot : U256) : Option U256 :=
  (sim.accounts address).bind fun account => account.storage slot

/-- `fetch_account_rpc`. -/
def fetchAccountRpc (address : Address) : AccountInfo :=
  let code := node.code address
  { balance := node.balance address
    nonce := node.nonce address
    codeHash := if 1 < code.length then keccak code else keccakEmpty keccak
    code := if 1 < code.length then some code else some [] }

/-- `basic`. A stub takes over every field of the fetched record. -/
def basic (sim : SimDb) (address : Address) : AccountInfo × SimDb :=
  match sim.accounts address with
  | some account =>
    if account.info.IsStub keccak then
      let info := fetchAccountRpc keccak node address
      (info, sim.set address { account with info := info })
    else (account.info, sim)
  | none =>
    let info := fetchAccountRpc keccak node address
    (info, sim.set address ⟨info, fun _ => none⟩)

/-- `storage`. -/
def storage (sim : SimDb) (address : Address) (index : U256) : U256 × SimDb :=
  match sim.slot address index with
  | some value => (value, sim)
  | none =>
    let value := node.storage address index
    (value, sim.set address (((sim.accounts address).getD (.fresh keccak)).write index value))

/-- The record of an account after the merge: missing code is filled in. -/
def mergeInfo (entry fetched : AccountInfo) : AccountInfo :=
  if fetched.code.isSome ∧ entry.code.isNone then
    { entry with code := fetched.code, codeHash := fetched.codeHash }
  else entry

/-- `write_back`. -/
def writeBack (sim : SimDb) (db : BlockStateDb) : BlockStateDb where
  accounts address :=
    match sim.accounts address with
    | none => db.accounts address
    | some account =>
      let entry := (db.accounts address).getD ⟨account.info, fun _ => none⟩
      some ⟨mergeInfo entry.info account.info, fun slot => entry.storage slot <|> account.storage slot⟩
  trackedPools := db.trackedPools
  pancakeV3Pools := db.pancakeV3Pools

end SimDb

end ArbBot.Accounts
