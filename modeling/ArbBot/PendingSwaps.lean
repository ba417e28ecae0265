import ArbBot.Lib.Neighbours
import ArbBot.Lib.SortDedup
import ArbBot.Mempool
import ArbBot.Searcher

/-!
# Pending swaps

From a pending transaction to the pools it will touch: the lookup table of `mempool.rs` and the body
of the loop of `stream_pending_swaps`. A pair of tokens is looked up in one order, the smaller token
first.
-/

namespace ArbBot.Mempool

open Lib (Checked neighbours sortDedup)
open Lib.Checked (noneIf)

/-- The tokens of a pair, the smaller one first. -/
def canonicalPair (a b : Address) : Address × Address := if a < b then (a, b) else (b, a)

/-- `sort` and `dedup`. -/
def sortAddresses (pools : List Address) : List Address := sortDedup id (· ≤ ·) pools

/-- The lookup table: the pools of a pair. -/
abbrev PairLookup := Address × Address → Option (List Address)

/-- `map.entry((t0, t1)).or_default().push(meta.address)`. -/
def PairLookup.push (lookup : PairLookup) (m : PoolMeta) : PairLookup := fun pair =>
  if pair = canonicalPair m.token0 m.token1 then some ((lookup pair).getD [] ++ [m.address])
  else lookup pair

/-- `build_token_pair_lookup`. -/
def buildTokenPairLookup (poolMetas : List PoolMeta) : PairLookup := fun pair =>
  (poolMetas.foldl PairLookup.push (fun _ => none) pair).map sortAddresses

/-- The fields of `MempoolConfig` beside the URL. -/
structure MempoolConfig where
  routerAddresses : Finset Address
  tokenPairToPool : PairLookup

/-- What is read of a transaction; the creation of a contract has no recipient. -/
structure PendingTx where
  recipient : Option Address
  input : Bytes

/-- The pools of the neighbours on a token path. -/
def affectedPools (lookup : PairLookup) (tokenPath : List Address) : List Address :=
  (neighbours tokenPath).flatMap fun pair => (lookup (canonicalPair pair.1 pair.2)).getD []

/-- The body of the loop of `stream_pending_swaps`: the event for a transaction, if there is one. -/
def pendingSwap (config : MempoolConfig) (tx : PendingTx) : Checked PoolsTouched := do
  let recipient ← Checked.ofOption tx.recipient
  noneIf (recipient ∉ config.routerAddresses)
  let tokenPath ← decodeAnySwap tx.input
  let affected := affectedPools config.tokenPairToPool tokenPath
  noneIf (affected = [])
  pure ⟨0, sortAddresses affected⟩

end ArbBot.Mempool
