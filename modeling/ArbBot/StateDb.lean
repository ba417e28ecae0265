import ArbBot.Lib.Bytes
import ArbBot.SwapTypes
import Mathlib.Data.Finset.Insert

/-!
# The local state database

The storage slots of tracked accounts, and the reads of pool state that need no request
(`state_db.rs`). A read gives no value when the slot it needs is not loaded. The hash that places
the entries of a mapping is the parameter `Keccak`. Codes, balances and the requests of the
prefetch functions are left out.
-/

namespace ArbBot

open Lib

/-- The loaded storage slots of each account that is present. -/
structure StateDb where
  accounts : Address → Option (U256 → Option U256)

namespace StateDb

def v2ReservesSlot : U256 := 8
def v3Slot0 : U256 := 0

/-- A database without accounts. -/
def empty : StateDb := ⟨fun _ => none⟩

/-- The value of a loaded slot. -/
def slot (db : StateDb) (address : Address) (slot : U256) : Option U256 := do
  let storage ← db.accounts address
  storage slot

/-- `update_slot`. -/
def updateSlot (db : StateDb) (address : Address) (slot value : U256) : StateDb where
  accounts a :=
    if a = address then
      let storage := (db.accounts address).getD fun _ => none
      some fun s => if s = slot then some value else storage s
    else db.accounts a

/-- `read_v2_reserves`: the low 112 bits and the next 112 bits of the reserves slot. -/
def readV2Reserves (db : StateDb) (pool : Address) : Option (U256 × U256) := do
  let packed ← db.slot pool v2ReservesSlot
  let mask112 : U256 := (1 <<< 112) - 1
  some (packed &&& mask112, (packed >>> 112) &&& mask112)

/-- `read_v3_slot0`: the square-root price in the low 160 bits, and the tick in the next 24,
sign-extended. -/
def readV3Slot0 (db : StateDb) (pool : Address) : Option (U256 × BitVec 32) := do
  let packed ← db.slot pool v3Slot0
  let mask160 : U256 := (1 <<< 160) - 1
  let tickRaw : BitVec 32 := ((packed >>> 160) &&& 0xFFFFFF).setWidth 32
  let tick := if tickRaw &&& 0x800000 ≠ 0 then tickRaw ||| 0xFF000000 else tickRaw
  some (packed &&& mask160, tick)

/-- The liquidity slot of the Uniswap layout. -/
def v3LiquiditySlot : U256 := 4

/-- The liquidity slot of the Pancake layout, whose slot 0 overflows into slot 1. -/
def v3LiquiditySlotPancake : U256 := 5

/-- The low 128 bits of a loaded slot. -/
def low128 (db : StateDb) (pool : Address) (key : U256) : Option (BitVec 128) :=
  (db.slot pool key).map (BitVec.setWidth 128)

/-- `read_v3_liquidity`: the first of the two slots that is positive, else the first loaded. -/
def readV3Liquidity (db : StateDb) (pool : Address) : Option (BitVec 128) :=
  [v3LiquiditySlot, v3LiquiditySlotPancake].findSome?
      (fun key => (db.low128 pool key).filter (0 < ·)) <|>
    (db.low128 pool v3LiquiditySlot <|> db.low128 pool v3LiquiditySlotPancake)

end StateDb

/-! ## Mappings -/

/-- `keccak256`, as a word. -/
abbrev Keccak := Bytes → U256

/-- `i256_bytes`: the sign-extended value in 32 bytes. -/
def i256Bytes (v : BitVec 32) : Bytes :=
  List.replicate 28 (if v.msb then 0xff else 0) ++ Bytes.digits 4 v.toNat

/-- `v3_tick_slot_base`: the slot of `ticks[tick]`, for the mapping at position `base`. -/
def v3TickSlotBase (keccak : Keccak) (tick : BitVec 32) (base : UInt64) : U256 :=
  keccak (i256Bytes tick ++ Bytes.ofWord (BitVec.ofNat 256 base.toNat))

/-- `v3_tick_bitmap_slot_base`: the slot of `tickBitmap[wordPos]`, for the mapping at position
`base`. -/
def v3TickBitmapSlotBase (keccak : Keccak) (wordPos : BitVec 16) (base : UInt64) : U256 :=
  keccak (i256Bytes (wordPos.signExtend 32) ++ Bytes.ofWord (BitVec.ofNat 256 base.toNat))

/-- `BlockStateDB`: the storage with the pools the worker tracks, and those of the Pancake
layout among them. -/
structure BlockStateDb extends StateDb where
  trackedPools : Finset Address
  pancakeV3Pools : Finset Address

namespace BlockStateDb

/-- `update_slot`. -/
def updateSlot (db : BlockStateDb) (address : Address) (slot value : U256) : BlockStateDb :=
  { db with toStateDb := db.toStateDb.updateSlot address slot value }

/-- The two halves of a tick's word: gross liquidity, and net liquidity in two's complement. -/
def unpackTick (packed : U256) : BitVec 128 × BitVec 128 :=
  (packed.setWidth 128, (packed >>> 128).setWidth 128)

/-- `read_v3_tick`. -/
def readV3Tick (keccak : Keccak) (db : BlockStateDb) (pool : Address) (tick : BitVec 32) :
    Option (BitVec 128 × BitVec 128) :=
  let base := if pool ∈ db.pancakeV3Pools then 6 else 5
  (db.slot pool (v3TickSlotBase keccak tick base)).map unpackTick

/-- `read_v3_tick_bitmap`. -/
def readV3TickBitmap (keccak : Keccak) (db : BlockStateDb) (pool : Address)
    (wordPos : BitVec 16) : Option U256 :=
  let base := if pool ∈ db.pancakeV3Pools then 7 else 6
  db.slot pool (v3TickBitmapSlotBase keccak wordPos base)

end BlockStateDb

end ArbBot
