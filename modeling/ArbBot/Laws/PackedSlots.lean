import ArbBot.Laws.StateDb
import ArbBot.Lib.Word

/-!
# Packed slots

The readers of pool state take apart what Solidity packs into one slot, the first field in the
lowest bits: the reserves of a pair with their timestamp, the price and the tick of a slot 0 with
whatever is packed above them, and the two liquidities of a tick. The slots of mappings are hashed
from the sign-extended key and the position of the mapping, each in one word.
-/

namespace ArbBot

open Lib

/-! ## Bits -/

section Bits

variable {w n : Nat}

/-- A mask of low bits. -/
theorem getLsbD_mask {mask : BitVec w} (h : mask.toNat = 2 ^ n - 1) (i : Nat) :
    mask.getLsbD i = decide (i < n) := by
  rw [BitVec.getLsbD, h, Nat.testBit_two_pow_sub_one]

/-- A masked word is its low bits. -/
theorem and_mask {mask : BitVec w} (h : mask.toNat = 2 ^ n - 1) (x : BitVec w) :
    x &&& mask = (x.setWidth n).setWidth w := by
  apply BitVec.eq_of_getLsbD_eq
  intro i hi
  rw [BitVec.getLsbD_and, getLsbD_mask h, BitVec.getLsbD_setWidth, BitVec.getLsbD_setWidth,
    decide_eq_true hi, Bool.true_and, Bool.and_comm]

variable {a b c : Nat} (high : BitVec a) (mid : BitVec b) (low : BitVec c)

/-- The lowest field of a packed word. -/
theorem setWidth_append_low : (high ++ low).setWidth c = low := by
  rw [BitVec.setWidth_append, dif_pos (Nat.le_refl c), BitVec.setWidth_eq]

/-- The field above the lowest one. -/
theorem setWidth_ushiftRight_append :
    ((high ++ mid ++ low) >>> c).setWidth b = mid := by
  apply BitVec.eq_of_getLsbD_eq
  intro i hi
  rw [BitVec.getLsbD_setWidth, BitVec.getLsbD_ushiftRight, BitVec.getLsbD_append,
    if_neg (by omega), Nat.add_sub_cancel_left, BitVec.getLsbD_append, if_pos hi,
    decide_eq_true hi, Bool.true_and]

/-- The upper one of two fields. -/
theorem setWidth_ushiftRight_append_two : ((high ++ low) >>> c).setWidth a = high := by
  apply BitVec.eq_of_getLsbD_eq
  intro i hi
  rw [BitVec.getLsbD_setWidth, BitVec.getLsbD_ushiftRight, BitVec.getLsbD_append,
    if_neg (by omega), Nat.add_sub_cancel_left, decide_eq_true hi, Bool.true_and]

/-- The sign of a 24-bit number, spread over the eight bits above it. -/
theorem signExtend_24 (tick : BitVec 24) :
    (if tick.setWidth 32 &&& 0x800000 ≠ 0 then tick.setWidth 32 ||| 0xFF000000
      else tick.setWidth 32 : BitVec 32) = tick.signExtend 32 := by
  have hsign : (0x800000 : BitVec 32) = BitVec.twoPow 32 23 := by decide
  have hspread : ∀ i < 32, (0xFF000000 : BitVec 32).getLsbD i = decide (24 ≤ i) := by decide
  have hmsb : (tick.setWidth 32).getLsbD 23 = tick.msb := by
    rw [BitVec.getLsbD_setWidth, BitVec.msb_eq_getLsbD_last]
    rfl
  rw [hsign, BitVec.and_twoPow, hmsb]
  apply BitVec.eq_of_getLsbD_eq
  intro i hi
  rw [BitVec.getLsbD_signExtend, decide_eq_true hi, Bool.true_and]
  by_cases hneg : tick.msb
  · rw [if_pos hneg, if_pos (by decide), BitVec.getLsbD_or, hspread i hi, BitVec.getLsbD_setWidth,
      decide_eq_true hi, Bool.true_and]
    split
    · rw [decide_eq_false (by omega), Bool.or_false]
    · rw [decide_eq_true (by omega), Bool.or_true, hneg]
  · rw [if_neg hneg, if_neg (by simp), BitVec.getLsbD_setWidth, decide_eq_true hi, Bool.true_and]
    split
    · rfl
    · rw [BitVec.getLsbD_of_ge _ _ (by omega), Bool.eq_false_iff.mpr hneg]

end Bits

/-! ## What Solidity packs -/

/-- `reserve0`, `reserve1` and `blockTimestampLast` of a pair. -/
def packReserves (reserve0 reserve1 : BitVec 112) (timestamp : BitVec 32) : U256 :=
  (timestamp ++ reserve1 ++ reserve0 : BitVec (32 + 112 + 112))

/-- `sqrtPriceX96` and `tick` of a slot 0, and what is packed above them. -/
def packSlot0 (sqrtPriceX96 : BitVec 160) (tick : BitVec 24) (rest : BitVec 72) : U256 :=
  (rest ++ tick ++ sqrtPriceX96 : BitVec (72 + 24 + 160))

/-- `liquidityGross` and `liquidityNet` of a tick. -/
def packTick (liquidityGross liquidityNet : BitVec 128) : U256 :=
  (liquidityNet ++ liquidityGross : BitVec (128 + 128))

variable {db : StateDb} {pool : Address}

theorem readV2Reserves_packReserves {reserve0 reserve1 : BitVec 112} {timestamp : BitVec 32}
    (h : db.slot pool StateDb.v2ReservesSlot = some (packReserves reserve0 reserve1 timestamp)) :
    db.readV2Reserves pool = some (reserve0.setWidth 256, reserve1.setWidth 256) := by
  have hmask : ((1 <<< 112 : U256) - 1).toNat = 2 ^ 112 - 1 := by decide
  have hlow : (packReserves reserve0 reserve1 timestamp).setWidth 112 = reserve0 :=
    setWidth_append_low (timestamp ++ reserve1) reserve0
  have hhigh : (packReserves reserve0 reserve1 timestamp >>> 112).setWidth 112 = reserve1 :=
    setWidth_ushiftRight_append timestamp reserve1 reserve0
  simp only [StateDb.readV2Reserves, h, Option.bind_eq_bind, Option.bind_some]
  rw [and_mask hmask, and_mask hmask, hlow, hhigh]

theorem readV3Slot0_packSlot0 {sqrtPriceX96 : BitVec 160} {tick : BitVec 24} {rest : BitVec 72}
    (h : db.slot pool StateDb.v3Slot0 = some (packSlot0 sqrtPriceX96 tick rest)) :
    db.readV3Slot0 pool = some (sqrtPriceX96.setWidth 256, tick.signExtend 32) := by
  have hmask : ((1 <<< 160 : U256) - 1).toNat = 2 ^ 160 - 1 := by decide
  have hmask24 : (0xFFFFFF : U256).toNat = 2 ^ 24 - 1 := by decide
  have hlow : (packSlot0 sqrtPriceX96 tick rest).setWidth 160 = sqrtPriceX96 :=
    setWidth_append_low (rest ++ tick) sqrtPriceX96
  have hhigh : (packSlot0 sqrtPriceX96 tick rest >>> 160).setWidth 24 = tick :=
    setWidth_ushiftRight_append rest tick sqrtPriceX96
  simp only [StateDb.readV3Slot0, h, Option.bind_eq_bind, Option.bind_some]
  rw [and_mask hmask, and_mask hmask24, hlow, hhigh,
    BitVec.setWidth_setWidth_of_le _ (by decide), signExtend_24]

theorem readV3Tick_packTick {keccak : Keccak} {db : BlockStateDb} {tick : BitVec 32}
    {liquidityGross liquidityNet : BitVec 128}
    (h : db.slot pool (v3TickSlotBase keccak tick (db.layout pool).tickBase) =
      some (packTick liquidityGross liquidityNet)) :
    db.readV3Tick keccak pool tick = some (liquidityGross, liquidityNet) := by
  have hbase : (if pool ∈ db.pancakeV3Pools then 6 else 5) = (db.layout pool).tickBase := by
    unfold BlockStateDb.layout
    split <;> rfl
  have hlow : (packTick liquidityGross liquidityNet).setWidth 128 = liquidityGross :=
    setWidth_append_low liquidityNet liquidityGross
  have hhigh : (packTick liquidityGross liquidityNet >>> 128).setWidth 128 = liquidityNet :=
    setWidth_ushiftRight_append_two liquidityNet liquidityGross
  simp only [BlockStateDb.readV3Tick, hbase, h, Option.map_some, BlockStateDb.unpackTick, hlow,
    hhigh]

/-! ## Mapping keys -/

/-- The digits of a number depend on as many of its digits alone. -/
theorem digits_congr {n x y : Nat} (h : x % 256 ^ n = y % 256 ^ n) :
    Bytes.digits n x = Bytes.digits n y := by
  have hx := Bytes.digits_toNat (Bytes.digits n x)
  rw [Bytes.length_digits, Bytes.toNat_digits_mod, h, ← Bytes.toNat_digits_mod] at hx
  have hy := Bytes.digits_toNat (Bytes.digits n y)
  rw [Bytes.length_digits] at hy
  exact hx.symm.trans hy

/-- **`i256_bytes` is the sign-extended word.** -/
theorem i256Bytes_eq (v : BitVec 32) : i256Bytes v = Bytes.ofWord (v.signExtend 256) := by
  have hlt := v.isLt
  have hvalue : (v.signExtend 256).toNat = v.toNat + if v.msb then 2 ^ 256 - 2 ^ 32 else 0 := by
    rw [BitVec.toNat_signExtend, BitVec.toNat_setWidth, Nat.mod_eq_of_lt (by omega)]
  have hsplit := Bytes.digits_add 28 4 (v.signExtend 256).toNat
  have hlow : Bytes.digits 4 (v.signExtend 256).toNat = Bytes.digits 4 v.toNat := by
    apply digits_congr
    rw [hvalue]
    split <;> omega
  have hhigh : Bytes.digits 28 ((v.signExtend 256).toNat / 256 ^ 4) =
      List.replicate 28 (if v.msb then 0xff else 0) := by
    rw [hvalue]
    split
    · rw [show (v.toNat + (2 ^ 256 - 2 ^ 32)) / 256 ^ 4 = 2 ^ 224 - 1 by omega]
      decide
    · rw [show (v.toNat + 0) / 256 ^ 4 = 0 by omega]
      decide
  rw [Bytes.ofWord, hsplit, hlow, hhigh, i256Bytes]

/-- The encoding of a signed key and the position of a mapping. -/
def mappingKey {w : Nat} (key : BitVec w) (base : UInt64) : Bytes :=
  Bytes.ofWords [key.signExtend 256, BitVec.ofNat 256 base.toNat]

theorem v3TickSlotBase_eq (keccak : Keccak) (tick : BitVec 32) (base : UInt64) :
    v3TickSlotBase keccak tick base = keccak (mappingKey tick base) := by
  rw [v3TickSlotBase, i256Bytes_eq]
  simp [mappingKey, Bytes.ofWords]

theorem v3TickBitmapSlotBase_eq (keccak : Keccak) (wordPos : BitVec 16) (base : UInt64) :
    v3TickBitmapSlotBase keccak wordPos base = keccak (mappingKey wordPos base) := by
  have hextend : (wordPos.signExtend 32).signExtend 256 = wordPos.signExtend 256 := by
    apply BitVec.eq_of_toInt_eq
    rw [BitVec.toInt_signExtend_of_le (by decide), BitVec.toInt_signExtend_of_le (by decide),
      BitVec.toInt_signExtend_of_le (by decide)]
  rw [v3TickBitmapSlotBase, i256Bytes_eq, hextend]
  simp [mappingKey, Bytes.ofWords]

theorem length_mappingKey {w : Nat} (key : BitVec w) (base : UInt64) :
    (mappingKey key base).length = 64 := by
  rw [mappingKey, Bytes.length_ofWords]
  rfl

/-- **Keys and positions are told apart by their encoding.** -/
theorem mappingKey_inj {w : Nat} (hw : w ≤ 256) {key key' : BitVec w} {base base' : UInt64}
    (h : mappingKey key base = mappingKey key' base') : key = key' ∧ base = base' := by
  have hwords : ∀ i,
      (mappingKey key base).wordAt (32 * i) = (mappingKey key' base').wordAt (32 * i) := fun i => by
    rw [h]
  have hkey := hwords 0
  have hbase := hwords 1
  unfold mappingKey at hkey hbase
  rw [Bytes.wordAt_ofWords rfl, Bytes.wordAt_ofWords rfl] at hkey hbase
  constructor
  · apply BitVec.eq_of_toInt_eq
    rw [← BitVec.toInt_signExtend_of_le hw, ← BitVec.toInt_signExtend_of_le hw, hkey]
  · have hvalue := congrArg BitVec.toNat hbase
    rw [toNat_ofNat_of_lt (base.toNat_lt.trans (by decide)),
      toNat_ofNat_of_lt (base'.toNat_lt.trans (by decide))] at hvalue
    exact UInt64.toNat_inj.mp hvalue

/-! ## Every reader -/

/-- **The readers return what was packed**, whatever is above a slot 0 and whichever layout the
pool has, and the slots of the mappings are the hashes of keys that tell every key and position
apart. -/
theorem reads_packed (keccak : Keccak) (db : BlockStateDb) (pool : Address) :
    (∀ reserve0 reserve1 timestamp,
      db.slot pool StateDb.v2ReservesSlot = some (packReserves reserve0 reserve1 timestamp) →
        db.readV2Reserves pool = some (reserve0.setWidth 256, reserve1.setWidth 256)) ∧
    (∀ sqrtPriceX96 tick rest,
      db.slot pool StateDb.v3Slot0 = some (packSlot0 sqrtPriceX96 tick rest) →
        db.readV3Slot0 pool = some (sqrtPriceX96.setWidth 256, tick.signExtend 32)) ∧
    (∀ tick liquidityGross liquidityNet,
      db.slot pool (v3TickSlotBase keccak tick (db.layout pool).tickBase) =
          some (packTick liquidityGross liquidityNet) →
        db.readV3Tick keccak pool tick = some (liquidityGross, liquidityNet)) ∧
    (∀ tick base, v3TickSlotBase keccak tick base = keccak (mappingKey tick base) ∧
      (mappingKey tick base).length = 64) ∧
    (∀ wordPos base, v3TickBitmapSlotBase keccak wordPos base = keccak (mappingKey wordPos base) ∧
      (mappingKey wordPos base).length = 64) ∧
    (∀ (tick tick' : BitVec 32) base base',
      mappingKey tick base = mappingKey tick' base' → tick = tick' ∧ base = base') ∧
    ∀ (wordPos wordPos' : BitVec 16) base base',
      mappingKey wordPos base = mappingKey wordPos' base' → wordPos = wordPos' ∧ base = base' :=
  ⟨fun _ _ _ => readV2Reserves_packReserves, fun _ _ _ => readV3Slot0_packSlot0,
    fun _ _ _ => readV3Tick_packTick,
    fun tick base => ⟨v3TickSlotBase_eq keccak tick base, length_mappingKey tick base⟩,
    fun wordPos base => ⟨v3TickBitmapSlotBase_eq keccak wordPos base, length_mappingKey wordPos base⟩,
    fun _ _ _ _ => mappingKey_inj (by decide), fun _ _ _ _ => mappingKey_inj (by decide)⟩

/-- A Pancake pool with reserves, a slot 0 at tick -5 and a tick -60 of negative net liquidity. -/
def packedDb (keccak : Keccak) : BlockStateDb where
  toStateDb := ((StateDb.empty.updateSlot 1 StateDb.v2ReservesSlot (packReserves 7 9 1700000000)).updateSlot
    1 StateDb.v3Slot0 (packSlot0 12345 (-5) 3)).updateSlot 1 (v3TickSlotBase keccak (-60) 6)
      (packTick 40 (-30))
  trackedPools := {1}
  pancakeV3Pools := {1}

/-- A stand-in for the hash: the first word, shifted. -/
def shiftKeccak : Keccak := fun bytes => bytes.wordAt 0 + 1000

theorem reads_packed_negative :
    (packedDb shiftKeccak).readV2Reserves 1 = some (7, 9) ∧
      (packedDb shiftKeccak).readV3Slot0 1 = some (12345, -5) ∧
        (packedDb shiftKeccak).readV3Tick shiftKeccak 1 (-60) = some (40, -30) := by
  obtain ⟨hreserves, hslot0, htick, -⟩ := reads_packed shiftKeccak (packedDb shiftKeccak) 1
  exact ⟨hreserves 7 9 1700000000 (by decide), hslot0 12345 (-5) 3 (by decide),
    htick (-60) 40 (-30) (by decide)⟩

end ArbBot
