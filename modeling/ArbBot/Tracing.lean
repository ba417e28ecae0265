import ArbBot.StateDb
import Mathlib.Data.List.AList

/-!
# Block tracing

`tracing_revm.rs`: the logs of a block name the touched pools, the node is asked for the key slots
of each, and what it answers becomes the diffs of the block. A request that fails is skipped. The
node is a record of its answers. Hash maps are association lists; the code goes through them in an
order of its own.
-/

namespace ArbBot

namespace Tracing

open Lib

/-! ## Hexadecimal texts -/

/-- `trim_start_matches("0x")`. -/
def trimPrefix : List Char → List Char
  | '0' :: 'x' :: rest => trimPrefix rest
  | text => text

def hexDigit (c : Char) : Option UInt8 :=
  if '0' ≤ c ∧ c ≤ '9' then some (c.toNat - 48).toUInt8
  else if 'a' ≤ c ∧ c ≤ 'f' then some (c.toNat - 87).toUInt8
  else if 'A' ≤ c ∧ c ≤ 'F' then some (c.toNat - 55).toUInt8
  else none

/-- `hex::decode`. -/
def hexDecode : List Char → Option Bytes
  | [] => some []
  | [_] => none
  | high :: low :: rest => do
    let h ← hexDigit high
    let l ← hexDigit low
    let bytes ← hexDecode rest
    some ((h * 16 + l) :: bytes)

/-- The text padded on the left to twice the length, as that many bytes. -/
def parseBytes (length : Nat) (s : String) : Option Bytes := do
  let text := trimPrefix s.toList
  let bytes ← hexDecode (List.replicate (2 * length - text.length) '0' ++ text)
  if bytes.length = length then some bytes else none

/-- `parse_address`. -/
def parseAddress (s : String) : Option Address :=
  (parseBytes 20 s).map fun bytes => BitVec.ofNat 160 (Bytes.toNat bytes)

/-- `parse_u256`. -/
def parseU256 (s : String) : Option U256 :=
  (parseBytes 32 s).map fun bytes => BitVec.ofNat 256 (Bytes.toNat bytes)

/-! ## The node -/

/-- A log: its address, and its topics, as far as they are texts. -/
structure RpcLog where
  address : Option String
  topics : List (Option String)

/-- The answer to one `eth_getLogs` request. -/
inductive LogsAnswer where
  | requestFailed (e : String)
  | notJson (e : String)
  /-- The answer has no array of results, but an `error`. -/
  | error (e : String)
  | noResult
  | result (logs : List RpcLog)

/-- What the node answers: by attempt, the logs of the block; by pool and slot, the text of the
storage value, if the request succeeds and its answer has one. -/
structure Node where
  logs : Nat → LogsAnswer
  storage : Address → U256 → Option String

/-- The rest of the attempts at `eth_getLogs`, after the last error. -/
def tryLogs (answer : Nat → LogsAnswer) : List Nat → String → Except String (List RpcLog)
  | [], lastErr => .error ("eth_getLogs error: " ++ lastErr)
  | attempt :: rest, _ =>
    match answer attempt with
    | .requestFailed e =>
      tryLogs answer rest ("eth_getLogs send attempt " ++ toString attempt ++ ": " ++ e)
    | .notJson e =>
      tryLogs answer rest ("eth_getLogs json attempt " ++ toString attempt ++ ": " ++ e)
    | .error e => tryLogs answer rest e
    | .noResult => tryLogs answer rest "no result"
    | .result logs => .ok logs

/-- The logs of the block, at the first of three attempts that has them. -/
def getLogs (node : Node) : Except String (List RpcLog) := tryLogs node.logs [0, 1, 2] ""

/-- `get_storage_at_raw`. -/
def getStorageAtRaw (node : Node) (address : Address) (slot : U256) : Option U256 :=
  (node.storage address slot).bind parseU256

/-! ## The touched pools -/

/-- `Swap(address,address,int256,int256,uint160,uint128,int24)`. -/
def v3SwapTopic : String := "0xc42079f94a6350d7e6235f29174924f928cc2ac818eb64fed8004e115fbcca67"

/-- `Sync(uint112,uint112)`. -/
def v2SyncU112Topic : String := "0x1c411e9a96e071241c2f21f7726b17ae89e3cab4c78be50e062b03a9fffbbad1"

/-- `Sync(uint256,uint256)`. -/
def v2SyncU256Topic : String := "0xcf2aa50876cdfbb541206f89af0ee78d44a2abf8d328e37fa4917f982149848a"

/-- The first topic in lower case, empty if it is missing. -/
def RpcLog.topic0 (log : RpcLog) : List Char :=
  (log.topics.head?.join.getD "").toList.map Char.toLower

def RpcLog.isV3 (log : RpcLog) : Bool := log.topic0 == v3SwapTopic.toList

def RpcLog.isV2 (log : RpcLog) : Bool :=
  log.topic0 == v2SyncU112Topic.toList || log.topic0 == v2SyncU256Topic.toList

/-- The pool that emitted a log. -/
def RpcLog.pool (log : RpcLog) : Option Address := parseAddress (log.address.getD "")

/-- The touched pools, with whether one of their events was a V3 swap. -/
abbrev Touched := AList fun _ : Address => Bool

def touchLog (tracked : Finset Address) (touched : Touched) (log : RpcLog) : Touched :=
  match log.pool with
  | none => touched
  | some addr =>
    if addr ∈ tracked then
      let entry := (touched.lookup addr).getD false
      touched.insert addr
        (if log.isV3 then true else if log.isV2 ∧ ¬ entry then false else entry)
    else touched

def touchedPools (tracked : Finset Address) (logs : List RpcLog) : Touched :=
  logs.foldl (touchLog tracked) ∅

/-! ## The diffs -/

/-- The new values of the slots of one address. -/
abbrev SlotDiffs := AList fun _ : U256 => U256

structure BlockTraceDiffs where
  blockNumber : UInt64
  diffs : AList fun _ : Address => SlotDiffs
  touchedAddresses : List Address

namespace BlockTraceDiffs

def new (blockNumber : UInt64) : BlockTraceDiffs := ⟨blockNumber, ∅, []⟩

/-- `get_address_diffs`. -/
def getAddressDiffs (d : BlockTraceDiffs) (address : Address) : Option SlotDiffs :=
  d.diffs.lookup address

/-- `add_diff`. -/
def addDiff (d : BlockTraceDiffs) (address : Address) (slot newValue : U256) : BlockTraceDiffs :=
  { d with
    touchedAddresses := d.touchedAddresses.insert address
    diffs := d.diffs.insert address (((d.getAddressDiffs address).getD ∅).insert slot newValue) }

end BlockTraceDiffs

/-- The slots that are read for a touched pool. -/
def keySlots (isV3 : Bool) : List U256 :=
  if isV3 then [StateDb.v3Slot0, StateDb.v3LiquiditySlot] else [StateDb.v2ReservesSlot]

/-- The slots of a pool with the values that were read, without the requests that failed. -/
def fetch (node : Node) (address : Address) (isV3 : Bool) : List (U256 × U256) :=
  (keySlots isV3).filterMap fun slot => (getStorageAtRaw node address slot).map (Prod.mk slot)

/-- `trace_block_diffs`. -/
def traceBlockDiffs (node : Node) (blockNumber : UInt64) (trackedPools : Finset Address) :
    Except String BlockTraceDiffs := do
  let logs ← getLogs node
  let touched := touchedPools trackedPools logs
  if touched.entries = [] then pure (.new blockNumber)
  else
    let results := touched.entries.map fun entry => (entry.1, fetch node entry.1 entry.2)
    pure (results.foldl (fun diffs result =>
      result.2.foldl (fun diffs pair => diffs.addDiff result.1 pair.1 pair.2) diffs)
        (.new blockNumber))

end Tracing

end ArbBot
