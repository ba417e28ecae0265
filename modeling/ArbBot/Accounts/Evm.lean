import ArbBot.Accounts.BlockStateDb

/-!
# Transactions on a database

A transaction of the virtual machine on `BlockStateDB`. The machine itself is not part of the
repository and is a parameter: for each transaction, what it asks the database for, with what it
does after each answer, up to the result and the accounts it commits. So it is any machine whose
run depends on the answers alone.

The machine loads an account before it asks for a slot of it. It has no use for the nonce of the
caller, which it does not check when the transaction names none, other than to count it up; so this
nonce is not shown, and is counted up in what is committed. Code comes with the record of an
account, and is never asked for by its hash.
-/

namespace ArbBot.Accounts

open Lib

/-- `TxEnv`: the fields a call sets. -/
structure TxEnv where
  caller : Address
  transactTo : Address
  data : Bytes
  value : U256
  gasLimit : UInt64
  gasPrice : U256

/-- `ExecutionResult`. -/
inductive ExecutionResult where
  | success (output : Bytes)
  | revert
  | halt

/-- The output of a transaction that succeeds. -/
def ExecutionResult.output : ExecutionResult → Option Bytes
  | .success output => some output
  | .revert | .halt => none

/-- A transaction under way: what it asks for next, or how it ends. A rejected one commits
nothing. -/
inductive Execution where
  | basic (address : Address) (next : AccountInfo → Execution)
  | storage (address : Address) (index : U256) (next : U256 → Execution)
  | reject
  | finish (result : ExecutionResult) (changes : Address → Option BlockStateDb.EvmAccount)

/-- The virtual machine. -/
abbrev Evm := TxEnv → Execution

namespace Execution

/-- What is committed is among the given accounts and those that are asked for on the way. -/
def ChangesTouched (touched : Set Address) : Execution → Prop
  | .basic address next => ∀ info, (next info).ChangesTouched (insert address touched)
  | .storage address _ next => ∀ value, (next value).ChangesTouched (insert address touched)
  | .reject => True
  | .finish _ changes => ∀ address, changes address ≠ none → address ∈ touched

end Execution

/-- Each transaction changes only the accounts it touches. -/
def Evm.ChangesTouched (evm : Evm) : Prop := ∀ tx, (evm tx).ChangesTouched {tx.caller}

/-- The record of an account as the machine goes by it. -/
def shown (caller address : Address) (info : AccountInfo) : AccountInfo :=
  if address = caller then { info with nonce := 0 } else info

/-- The nonce of the caller after a transaction. -/
def countUp (nonce : UInt64) : UInt64 := if nonce = 0xFFFFFFFFFFFFFFFF then nonce else nonce + 1

/-- The account as it is committed, with the nonce of the caller counted up. -/
def counted (caller : Address) (nonce : UInt64) (address : Address)
    (change : BlockStateDb.EvmAccount) : BlockStateDb.EvmAccount :=
  if address = caller then { change with info := { change.info with nonce := countUp nonce } }
  else change

/-- The accounts as they are committed. -/
def countNonce (caller : Address) (nonce : UInt64)
    (changes : Address → Option BlockStateDb.EvmAccount) :
    Address → Option BlockStateDb.EvmAccount :=
  fun address => (changes address).map (counted caller nonce address)

namespace BlockStateDb

variable (keccak : Keccak) (node : Node)

/-- `transact_commit`: the result, unless the transaction is rejected, and the database after
it. -/
def transactCommit (caller : Address) : Execution → BlockStateDb →
    Option ExecutionResult × BlockStateDb
  | .basic address next, db =>
    let loaded := db.basic keccak node address
    transactCommit caller (next (shown caller address loaded.1)) loaded.2
  | .storage address index next, db =>
    let value := (db.basic keccak node address).2.storage keccak node address index
    transactCommit caller (next value.1) value.2
  | .reject, db => (none, db)
  | .finish result changes, db =>
    let loaded := db.basic keccak node caller
    (some result, loaded.2.commit keccak (countNonce caller loaded.1.nonce changes))

end BlockStateDb

end ArbBot.Accounts
