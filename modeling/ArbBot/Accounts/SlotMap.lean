import ArbBot.Accounts.SwapFilter
import ArbBot.Tracing

/-!
# Balance slots

How the startup filter finds out where a token keeps its balances (`filter_revm.rs`). One batch of
requests asks for the balance of a pool that holds the token and for the words of its candidate
slots, and the first candidate that holds the balance is taken. The answers of a batch come in any
order, and so do the tokens whose batches are in flight.
-/

namespace ArbBot.Accounts

open Lib

/-! ## Requests -/

/-- A call of a batch. Addresses, bytes and words are sent as hexadecimal texts. -/
inductive NodeCall where
  | ethCall (dst : Address) (data : Bytes)
  | getStorageAt (address : Address) (slot : U256)

structure BatchRequest where
  id : UInt64
  call : NodeCall

/-- An answer, with its `id` and its `result` as far as it has them. -/
structure BatchAnswer where
  id : Option UInt64
  result : Option String

/-- What comes back for a batch, if the request succeeds with a list. -/
abbrev BatchService := List BatchRequest → Option (List BatchAnswer)

/-- `parse_u256` of `find_balance_slot`: what is no number is zero. -/
def BatchAnswer.word (answer : BatchAnswer) : U256 := (answer.result.bind Tracing.parseU256).getD 0

/-- The answer in `by_id`; a later one takes the place of an earlier one. -/
def answerFor (answers : List BatchAnswer) (id : UInt64) : Option BatchAnswer :=
  answers.reverse.find? fun answer => answer.id = some id

/-! ## One token -/

structure SlotProbe where
  id : UInt64
  slotIdx : UInt64
  layout : SlotLayout

/-- `probes`: both layouts of each of the first 24 indices. -/
def slotProbes : List SlotProbe :=
  (List.range 24).flatMap fun i =>
    [⟨.ofNat (2 * i + 1), .ofNat i, .solidity⟩, ⟨.ofNat (2 * i + 2), .ofNat i, .vyper⟩]

/-- The calldata of `balanceOf(holder)`. -/
def balanceOfData (holder : Address) : Bytes :=
  [0x70, 0xa0, 0x82, 0x31] ++ List.replicate 12 0 ++ Bytes.digits 20 holder.toNat

/-- The batch: the balance first, then the candidate slots. -/
def slotBatch (keccak : Keccak) (token holder : Address) : List BatchRequest :=
  ⟨0, .ethCall token (balanceOfData holder)⟩ :: slotProbes.map fun probe =>
    ⟨probe.id, .getStorageAt token (computeSlot keccak holder probe.slotIdx probe.layout)⟩

/-- The first probe that was answered with the balance. -/
def matchProbe (results : List BatchAnswer) : Option SlotProbe :=
  let actualBalance := ((answerFor results 0).map BatchAnswer.word).getD 0
  if actualBalance = 0 then none
  else slotProbes.find? fun probe =>
    (answerFor results probe.id).any fun answer => answer.word = actualBalance

/-- `find_balance_slot`. -/
def findBalanceSlot (keccak : Keccak) (service : BatchService) (token holder : Address) :
    Option (UInt64 × SlotLayout) := do
  let results ← service (slotBatch keccak token holder)
  let probe ← matchProbe results
  return (probe.slotIdx, probe.layout)

/-! ## All tokens -/

/-- `entry(token).or_insert(holder)`. -/
def orInsert (holders : Address → Option Address) (token holder : Address) :
    Address → Option Address :=
  fun t => if t = token then some ((holders token).getD holder) else holders t

/-- `token_holders`. -/
def tokenHolders (pools : List RawPool) : Address → Option Address :=
  pools.foldl (fun holders pool =>
    orInsert (orInsert holders pool.token0 pool.address) pool.token1 pool.address) fun _ => none

/-- The tokens in the order their tasks are joined. -/
structure IsJoinOrder (joined : List Address) (pools : List RawPool) : Prop where
  nodup : joined.Nodup
  mem : ∀ token, token ∈ joined ↔ (tokenHolders pools token).isSome

/-- What a task comes to that is joined. -/
def joinTask (keccak : Keccak) (service : BatchService) (pools : List RawPool) (slotMap : SlotMap)
    (token : Address) : SlotMap :=
  match (tokenHolders pools token).bind (findBalanceSlot keccak service token) with
  | some slot => fun t => if t = token then some slot else slotMap t
  | none => slotMap

/-- `construct_slot_map`. -/
def constructSlotMap (keccak : Keccak) (service : BatchService) (pools : List RawPool)
    (joined : List Address) : SlotMap :=
  joined.foldl (joinTask keccak service pools) fun _ => none

end ArbBot.Accounts
