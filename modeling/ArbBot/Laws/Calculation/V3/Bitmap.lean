import ArbBot.Laws.Uniswap.Swap

/-!
# The tick bitmap of a loaded pool

When every word of the bitmap is loaded and says which ticks of a pool are initialised, the search
of the code finds the next tick of the pool.
-/

namespace ArbBot

namespace V3

open Lib Uniswap

/-- The bits of a word are the initialised ticks among its 256. -/
def Shows (pool : Pool) (word : Int) (bits : U256) : Prop :=
  ∀ bit, bit < 256 → bits.getLsbD bit = decide (pool.tickOf word bit ∈ pool.ticks)

/-- The database holds the whole state of a pool at a price and tick. -/
structure Loaded (keccak : Keccak) (db : BlockStateDb) (address : Address) (pool : Pool)
    (sqrtPrice : U256) (tick : Int) : Prop where
  slot0 : db.readV3Slot0 address = some (sqrtPrice, BitVec.ofInt 32 tick)
  liquidity : db.readV3Liquidity address = some (BitVec.ofInt 128 (pool.liquidityAt tick))
  bitmap : ∀ word : BitVec 16, ∃ bits, db.readV3TickBitmap keccak address word = some bits ∧
    Shows pool word.toInt bits
  entry : ∀ tick ∈ pool.ticks, ∃ gross,
    db.readV3Tick keccak address (BitVec.ofInt 32 tick) =
      some (gross, BitVec.ofInt 128 (pool.net tick))

/-! ## The tick that is found -/

variable {pool : Pool} {tick : Int} {zeroForOne : Bool} {keccak : Keccak} {db : BlockStateDb}
  {address : Address}

/-- A loaded bitmap shows the ticks of the pool. -/
theorem Loaded.stored {sqrtPrice : U256} {start : Int}
    (hloaded : Loaded keccak db address pool sqrtPrice start) :
    Stored keccak db address pool.spacing fun t => decide (t ∈ pool.ticks) := by
  intro word bit hbit
  obtain ⟨bits, hword, hbits⟩ := hloaded.bitmap word
  rw [hword]
  exact hbits bit hbit

/-- **The search of the code finds the next tick** of a pool that is loaded. -/
theorem findNextInitializedTick_eq {sqrtPrice : U256} {start : Int}
    (hloaded : Loaded keccak db address pool sqrtPrice start) (hlow : minTick - 1 ≤ tick)
    (hhigh : tick ≤ maxTick) :
    findNextInitializedTick keccak db address tick pool.spacing zeroForOne =
      some (pool.nextTick zeroForOne tick) :=
  findNextInitializedTick_eq_nextIn pool.spacing_pos pool.spacing_lt hlow hhigh hloaded.stored

end V3

end ArbBot
