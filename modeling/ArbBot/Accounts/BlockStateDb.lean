import ArbBot.StateDb
import Mathlib.Data.Finset.Lattice.Basic
import Mathlib.Logic.Function.Basic

/-!
# The state database with its accounts

`BlockStateDB` as the virtual machine sees it (`state_db.rs`): each account has its balance, nonce
and code beside its storage, and what is missing is fetched from the node. The node is a record of
its answers, and answers every request. An account that a slot is written to before anything else
is known of it gets the default record, whose code is there and empty.

A hash map is a function; where the code goes through one, the order it meets the entries in is an
argument. How a slot came in is recorded by the source and never read, and is left out.
-/

namespace ArbBot.Accounts

open Lib

/-- `AccountInfo` of the virtual machine. -/
structure AccountInfo where
  balance : U256
  nonce : UInt64
  codeHash : U256
  code : Option Bytes
  deriving DecidableEq

/-- What the node answers. -/
structure Node where
  balance : Address → U256
  nonce : Address → UInt64
  code : Address → Bytes
  storage : Address → U256 → U256

/-- `KECCAK_EMPTY`. -/
def keccakEmpty (keccak : Keccak) : U256 := keccak []

/-- `AccountInfo::default()`. -/
def defaultInfo (keccak : Keccak) : AccountInfo := ⟨0, 0, keccakEmpty keccak, some []⟩

/-- The record has no code, and the hash of the empty one. -/
def AccountInfo.IsStub (keccak : Keccak) (info : AccountInfo) : Prop :=
  info.code = none ∧ info.codeHash = keccakEmpty keccak

instance (keccak : Keccak) (info : AccountInfo) : Decidable (info.IsStub keccak) :=
  inferInstanceAs (Decidable (_ ∧ _))

/-- `BlockStateAccount`, and `SimAccount`. -/
structure Account where
  info : AccountInfo
  storage : U256 → Option U256

/-- The account a slot is written to when there is none. -/
def Account.fresh (keccak : Keccak) : Account := ⟨defaultInfo keccak, fun _ => none⟩

/-- The account with one more slot. -/
def Account.write (account : Account) (slot value : U256) : Account :=
  { account with storage := Function.update account.storage slot (some value) }

/-- `BlockStateDB`. The tracked pools are listed in the order their set is gone through. -/
structure BlockStateDb where
  accounts : Address → Option Account
  trackedPools : List Address
  pancakeV3Pools : Finset Address

/-- `code_by_hash`, on the accounts of either database, met in the given order: the loop ends at
the first account with the hash, also if that one has no code. -/
def codeByHash (keccak : Keccak) (order : List Address) (accounts : Address → Option Account)
    (codeHash : U256) : Bytes :=
  if codeHash = 0 ∨ codeHash = keccakEmpty keccak then []
  else
    match (order.filterMap accounts).find? fun account => account.info.codeHash = codeHash with
    | some account => account.info.code.getD []
    | none => []

namespace BlockStateDb

variable (keccak : Keccak) (node : Node)

/-- `new`. -/
def new : BlockStateDb := ⟨fun _ => none, [], ∅⟩

/-- The database with an account in place of what it has at the address. -/
def set (db : BlockStateDb) (address : Address) (account : Account) : BlockStateDb :=
  { db with accounts := Function.update db.accounts address (some account) }

/-- The value of a loaded slot. -/
def slot (db : BlockStateDb) (address : Address) (slot : U256) : Option U256 :=
  (db.accounts address).bind fun account => account.storage slot

/-! ## Writes -/

/-- `update_slot`. -/
def updateSlot (db : BlockStateDb) (address : Address) (slot value : U256) : BlockStateDb :=
  db.set address (((db.accounts address).getD (.fresh keccak)).write slot value)

/-- Slots written one after the other. -/
def updateSlots (db : BlockStateDb) (writes : List (Address × U256 × U256)) : BlockStateDb :=
  writes.foldl (fun db write => db.updateSlot keccak write.1 write.2.1 write.2.2) db

/-- `inject_account`. -/
def injectAccount (db : BlockStateDb) (address : Address) (info : AccountInfo) : BlockStateDb :=
  db.set address { (db.accounts address).getD ⟨info, fun _ => none⟩ with info := info }

/-- `fetch_account_blocking`. -/
def fetchAccountBlocking (address : Address) : AccountInfo :=
  let code := node.code address
  { balance := node.balance address
    nonce := node.nonce address
    codeHash := if code = [] then keccakEmpty keccak else keccak code
    code := if code = [] then none else some code }

/-- `inject_slot`. -/
def injectSlot (db : BlockStateDb) (address : Address) (slot value : U256) : BlockStateDb :=
  let account :=
    (db.accounts address).getD ⟨fetchAccountBlocking keccak node address, fun _ => none⟩
  db.set address (account.write slot value)

/-! ### Commits -/

/-- A slot of a committed account. -/
structure EvmStorageSlot where
  originalValue : U256
  presentValue : U256

/-- `is_changed`. -/
def EvmStorageSlot.IsChanged (slot : EvmStorageSlot) : Prop :=
  slot.originalValue ≠ slot.presentValue

instance (slot : EvmStorageSlot) : Decidable slot.IsChanged := inferInstanceAs (Decidable (_ ≠ _))

/-- An account the virtual machine commits. -/
structure EvmAccount where
  info : AccountInfo
  storage : U256 → Option EvmStorageSlot

/-- `is_empty`. -/
def EvmAccount.IsEmpty (account : EvmAccount) : Prop :=
  (account.info.codeHash = keccakEmpty keccak ∨ account.info.codeHash = 0) ∧
    account.info.balance = 0 ∧ account.info.nonce = 0

instance (account : EvmAccount) : Decidable (account.IsEmpty keccak) :=
  inferInstanceAs (Decidable (_ ∧ _))

/-- The value a committed account writes to a slot. -/
def EvmAccount.written (account : EvmAccount) (slot : U256) : Option U256 :=
  (account.storage slot).bind fun change =>
    if change.IsChanged then some change.presentValue else none

/-- `commit`. The accounts of a commit are different ones, so their order does not matter. -/
def commit (db : BlockStateDb) (changes : Address → Option EvmAccount) : BlockStateDb where
  accounts address :=
    match changes address with
    | none => db.accounts address
    | some change =>
      if change.IsEmpty keccak then db.accounts address
      else
        let entry := (db.accounts address).getD (.fresh keccak)
        some ⟨change.info, fun slot => change.written slot <|> entry.storage slot⟩
  trackedPools := db.trackedPools
  pancakeV3Pools := db.pancakeV3Pools

/-! ## `Database` -/

/-- `basic`: the account's record, and the database with it. -/
def basic (db : BlockStateDb) (address : Address) : AccountInfo × BlockStateDb :=
  match db.accounts address with
  | some account =>
    if account.info.IsStub keccak then
      let code := node.code address
      if code = [] then (account.info, db)
      else
        let info := { account.info with codeHash := keccak code, code := some code }
        (info, db.set address { account with info := info })
    else (account.info, db)
  | none =>
    let info := fetchAccountBlocking keccak node address
    (info, db.set address ⟨info, fun _ => none⟩)

/-- `storage`. -/
def storage (db : BlockStateDb) (address : Address) (index : U256) : U256 × BlockStateDb :=
  match db.slot address index with
  | some value => (value, db)
  | none =>
    let value := node.storage address index
    (value, db.updateSlot keccak address index value)

/-! ## Diffs and prefetches -/

/-- What `apply_state_diffs` writes: the slots of the tracked pools. -/
def diffWrites (db : BlockStateDb) (diffs : List (Address × List (U256 × U256))) :
    List (Address × U256 × U256) :=
  (diffs.filter fun diff => db.trackedPools.contains diff.1).flatMap fun diff =>
    diff.2.map fun cell => (diff.1, cell.1, cell.2)

/-- The slots among the given ones that the database lacks, pool by pool. -/
def missingSlots (db : BlockStateDb) (slots : List U256) : List (Address × U256) :=
  db.trackedPools.flatMap fun pool =>
    (slots.filter fun slot => (db.slot pool slot).isNone).map fun slot => (pool, slot)

/-- The node's answers to requests for slots. -/
def fetched (cells : List (Address × U256)) : List (Address × U256 × U256) :=
  cells.map fun cell => (cell.1, cell.2, node.storage cell.1 cell.2)

/-- What `prefetch_token_slots` writes: slots 6 and 7 of the tracked pools, unless they are
zero. -/
def tokenWrites (db : BlockStateDb) : List (Address × U256 × U256) :=
  (fetched node (db.missingSlots [6, 7])).filter fun write => write.2.2 ≠ 0

/-- What `prefetch_v3_slots` writes: the price and liquidity slots of both layouts. -/
def v3Writes (db : BlockStateDb) : List (Address × U256 × U256) :=
  fetched node (db.missingSlots [0, 1, 4, 5])

/-- A pool as `prefetch_v3_tick_data` is given it. -/
structure V3Pool where
  address : Address
  tickSpacing : BitVec 32
  isPancake : Bool

/-- The bitmap words around the one of the current tick, nine at most. -/
def nearbyWords (currentTick tickSpacing : BitVec 32) : List (BitVec 16) :=
  let compressed := currentTick.sdiv tickSpacing
  let currentWord : BitVec 16 := (compressed.sshiftRight 8).setWidth 16
  ([-4, -3, -2, -1, 0, 1, 2, 3, 4] : List Int).map fun offset =>
    BitVec.ofInt 16 (max (-32768) (min 32767 (currentWord.toInt + offset)))

/-- The storage alone, which the reads of pool state go by. -/
def toStateDb (db : BlockStateDb) : StateDb :=
  ⟨fun address => (db.accounts address).map Account.storage⟩

/-- The bitmap words to fetch, with their slots. -/
def bitmapsToFetch (db : BlockStateDb) (pools : List V3Pool) :
    List (Address × BitVec 16 × U256) :=
  pools.flatMap fun pool =>
    if pool.tickSpacing.toInt ≤ (0 : Int) then []
    else
      match db.toStateDb.readV3Slot0 pool.address with
      | none => []
      | some (_, currentTick) =>
        let base := if pool.isPancake then 7 else 6
        ((nearbyWords currentTick pool.tickSpacing).map fun wordPos =>
          (pool.address, wordPos, v3TickBitmapSlotBase keccak wordPos base)).filter fun word =>
            (db.slot word.1 word.2.2).isNone

/-- The slots of the ticks that are set in a fetched bitmap word. A product past 32 bits wraps, as
in the release build. -/
def tickSlots (pancakeV3Pools : Finset Address) (pool : Address) (wordPos : BitVec 16)
    (tickSpacing : BitVec 32) (bitmap : U256) : List U256 :=
  let base := if pool ∈ pancakeV3Pools then 6 else 5
  ((List.range 256).filter fun bitPos => bitmap.getLsbD bitPos).map fun bitPos =>
    let compressedTick := wordPos.signExtend 32 * 256 + BitVec.ofNat 32 bitPos
    v3TickSlotBase keccak (compressedTick * tickSpacing) base

/-- The tick slots to fetch after the bitmap words. Of two entries for one pool the last one gives
the tick spacing. -/
def ticksToFetch (db : BlockStateDb) (pools : List V3Pool)
    (words : List (Address × BitVec 16 × U256)) : List (Address × U256) :=
  words.flatMap fun word =>
    match pools.reverse.find? fun pool => pool.address = word.1 with
    | none => []
    | some pool =>
      ((tickSlots keccak db.pancakeV3Pools word.1 word.2.1 pool.tickSpacing
          (node.storage word.1 word.2.2)).filter fun slot => (db.slot word.1 slot).isNone).map
        fun slot => (word.1, slot)

/-- The pools of the Pancake layout that `prefetch_v3_tick_data` registers. -/
def registerPancake (db : BlockStateDb) (pools : List V3Pool) : BlockStateDb :=
  { db with
    pancakeV3Pools :=
      db.pancakeV3Pools ∪ ((pools.filter (·.isPancake)).map (·.address)).toFinset }

/-- What `prefetch_v3_tick_data` writes: bitmap words, and then the ticks set in them. -/
def tickWrites (db : BlockStateDb) (pools : List V3Pool) : List (Address × U256 × U256) :=
  let db := db.registerPancake pools
  let words := bitmapsToFetch keccak db pools
  let bitmaps := fetched node (words.map fun word => (word.1, word.2.2))
  bitmaps ++ fetched node (ticksToFetch keccak node (db.updateSlots keccak bitmaps) pools words)

/-- `apply_state_diffs`. -/
def applyStateDiffs (db : BlockStateDb) (diffs : List (Address × List (U256 × U256))) :
    BlockStateDb :=
  db.updateSlots keccak (db.diffWrites diffs)

/-- `prefetch_token_slots`. -/
def prefetchTokenSlots (db : BlockStateDb) : BlockStateDb :=
  db.updateSlots keccak (db.tokenWrites node)

/-- `prefetch_v3_slots`. -/
def prefetchV3Slots (db : BlockStateDb) : BlockStateDb :=
  db.updateSlots keccak (db.v3Writes node)

/-- `prefetch_v3_tick_data`. -/
def prefetchV3TickData (db : BlockStateDb) (pools : List V3Pool) : BlockStateDb :=
  (db.registerPancake pools).updateSlots keccak (db.tickWrites keccak node pools)

/-- The record of a pool whose code `prefetch_pool_codes` has fetched. -/
def storeCode (db : BlockStateDb) (pool : Address) : BlockStateDb :=
  let code := node.code pool
  if code = [] then db
  else
    let account := (db.accounts pool).getD (.fresh keccak)
    db.set pool
      { account with info := { account.info with codeHash := keccak code, code := some code } }

/-- The tracked pools that are absent or whose code is missing. -/
def needsCode (db : BlockStateDb) : List Address :=
  db.trackedPools.filter fun pool =>
    (db.accounts pool).all fun account => account.info.code.isNone

/-- `prefetch_pool_codes`. -/
def prefetchPoolCodes (db : BlockStateDb) : BlockStateDb :=
  db.needsCode.foldl (storeCode keccak node) db

/-- `track_pool`. -/
def trackPool (db : BlockStateDb) (pool : Address) : BlockStateDb :=
  { db with
    trackedPools :=
      if db.trackedPools.contains pool then db.trackedPools else db.trackedPools ++ [pool] }

end BlockStateDb

end ArbBot.Accounts
