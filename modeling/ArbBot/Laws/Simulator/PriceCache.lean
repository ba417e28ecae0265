import ArbBot.Laws.Simulator.Accounting
import ArbBot.Laws.StateDb

/-!
# Prices and the cache

The kind of a price pool is guessed from slot 8: a pool for which it is loaded is taken for a
constant-product pair. A concentrated-liquidity pool has its observations there, and a simulation
that passes through such a pool fetches them and writes them back. From then on the pool's price is
what two numbers packed in an observation make of it.
-/

namespace ArbBot

open Lib

/-! ## What a simulation adds to the database -/

namespace SimDb

theorem slot_snapshot (db : StateDb) (a : Address) (k : U256) :
    (snapshot db).slot a k = db.slot a k := rfl

theorem slot_basic (sim : SimDb) (address a : Address) (k : U256) :
    (sim.basic address).slot a k = sim.slot a k := by
  unfold slot basic
  by_cases ha : a = address
  · subst ha
    cases haccount : sim.accounts a <;> simp [haccount]
  · simp [ha]

theorem slot_storage (fetch : Address → U256 → U256) (sim : SimDb) (address a : Address)
    (index k : U256) :
    (sim.storage fetch address index).2.slot a k =
      (sim.slot a k <|> if a = address ∧ k = index then some (fetch a k) else none) := by
  unfold storage
  cases hloaded : sim.slot address index with
  | some value =>
    by_cases h : a = address ∧ k = index
    · obtain ⟨rfl, rfl⟩ := h
      simp [hloaded]
    · simp [h]
  | none =>
    unfold slot at hloaded ⊢
    by_cases ha : a = address
    · subst ha
      by_cases hk : k = index
      · subst hk
        simp [hloaded]
      · cases haccount : sim.accounts a <;> simp [hk, haccount]
    · simp [ha]

/-- A run adds the slots it asks for. -/
theorem slot_run (fetch : Address → U256 → U256) (accesses : List Access) (sim : SimDb)
    (a : Address) (k : U256) :
    (sim.run fetch accesses).slot a k =
      (sim.slot a k <|> if .storage a k ∈ accesses then some (fetch a k) else none) := by
  induction accesses generalizing sim with
  | nil => simp [run]
  | cons first rest ih =>
    have hstep : sim.run fetch (first :: rest) = (sim.access fetch first).run fetch rest := rfl
    rw [hstep, ih]
    cases first with
    | basic address => simp [access, slot_basic]
    | storage address index =>
      rw [access, slot_storage]
      by_cases h : a = address ∧ k = index
      · obtain ⟨rfl, rfl⟩ := h
        cases sim.slot a k <;> simp
      · simp [h]

theorem slot_writeBack (sim : SimDb) (db : StateDb) (a : Address) (k : U256) :
    (sim.writeBack db).slot a k = (db.slot a k <|> sim.slot a k) := by
  unfold slot StateDb.slot writeBack
  cases hsim : sim.accounts a <;> cases hdb : db.accounts a <;> simp [hsim, hdb]

end SimDb

namespace Simulator

variable {w : Worker} {db : StateDb} {startToken pricePool : Address} {sqrtPriceX96 : U256}
  {tick : BitVec 32}

/-! ## Two conversions that differ -/

theorem convert_true {profit : U256} (h : ¬ (sqrtPriceX96 = 0 ∨ profit = 0)) :
    v3SpotPriceConvert profit sqrtPriceX96 true =
      (checkedMul profit sqrtPriceX96).bind fun first =>
        (checkedMul (first >>> 96) sqrtPriceX96).bind fun second => some (second >>> 96) := by
  unfold v3SpotPriceConvert
  rw [if_neg h, if_pos rfl]
  rfl

theorem convert_false {profit : U256} (h : ¬ (sqrtPriceX96 = 0 ∨ profit = 0)) :
    v3SpotPriceConvert profit sqrtPriceX96 false =
      (checkedMul profit q96).bind fun first =>
        (checkedMul (first / sqrtPriceX96) q96).bind fun second =>
          some (second / sqrtPriceX96) := by
  unfold v3SpotPriceConvert
  rw [if_neg h, if_neg Bool.false_ne_true]
  rfl

theorem convert_one_isSome (startIsToken0 : Bool) (hprice : sqrtPriceX96.toNat < 2 ^ 160) :
    ∃ native, v3SpotPriceConvert 1 sqrtPriceX96 startIsToken0 = some native := by
  have hunit : (1 : U256).toNat = 1 := rfl
  by_cases hzero : sqrtPriceX96 = 0 ∨ (1 : U256) = 0
  · unfold v3SpotPriceConvert
    exact ⟨0, if_pos hzero⟩
  · cases startIsToken0 with
    | true =>
      have hfits : (1 : U256).toNat * sqrtPriceX96.toNat < 2 ^ 256 := by
        rw [hunit]
        omega
      obtain ⟨first, hfirst, hvalue⟩ := exists_checkedMul hfits
      have hquot : (first >>> 96).toNat < 2 ^ 64 := by
        rw [toNat_shiftRight_96, hvalue, hunit]
        omega
      have hfits' : (first >>> 96).toNat * sqrtPriceX96.toNat < 2 ^ 256 :=
        lt_of_lt_of_le (Nat.mul_lt_mul'' hquot hprice) (by decide)
      obtain ⟨second, hsecond, -⟩ := exists_checkedMul hfits'
      rw [convert_true hzero, hfirst, Option.bind_some, hsecond, Option.bind_some]
      exact ⟨_, rfl⟩
    | false =>
      have hfits : (1 : U256).toNat * q96.toNat < 2 ^ 256 := by
        rw [hunit, toNat_q96]
        decide
      obtain ⟨first, hfirst, hvalue⟩ := exists_checkedMul hfits
      have hquot : (first / sqrtPriceX96).toNat ≤ 2 ^ 96 := by
        rw [BitVec.toNat_udiv, hvalue, hunit, toNat_q96, Nat.one_mul]
        exact Nat.div_le_self _ _
      have hfits' : (first / sqrtPriceX96).toNat * q96.toNat < 2 ^ 256 := by
        rw [toNat_q96]
        exact lt_of_le_of_lt (Nat.mul_le_mul_right _ hquot) (by decide)
      obtain ⟨second, hsecond, -⟩ := exists_checkedMul hfits'
      rw [convert_false hzero, hfirst, Option.bind_some, hsecond, Option.bind_some]
      exact ⟨_, rfl⟩

/-- The largest profit overflows: at once when the price is above 1, and on the way to the inverse
at any price. -/
theorem convert_max_eq_none {startIsToken0 : Bool} (hprice : sqrtPriceX96 ≠ 0)
    (hone : startIsToken0 = true → sqrtPriceX96 ≠ 1) :
    v3SpotPriceConvert (-1) sqrtPriceX96 startIsToken0 = none := by
  have hmax : (-1 : U256).toNat = 2 ^ 256 - 1 := by decide
  have hnonzero : ¬ (sqrtPriceX96 = 0 ∨ (-1 : U256) = 0) := by
    rintro (h | h)
    · exact hprice h
    · exact absurd h (by decide)
  cases startIsToken0 with
  | true =>
    have hover : checkedMul (-1) sqrtPriceX96 = none := by
      have hzero : sqrtPriceX96.toNat ≠ 0 := (toNat_pos hprice).ne'
      have hunit : sqrtPriceX96.toNat ≠ 1 := fun h => hone rfl (BitVec.eq_of_toNat_eq h)
      apply checkedMul_eq_none
      rw [hmax]
      omega
    rw [convert_true hnonzero, hover, Option.bind_none]
  | false =>
    have hover : checkedMul (-1) q96 = none := by
      apply checkedMul_eq_none
      rw [hmax, toNat_q96]
      decide
    rw [convert_false hnonzero, hover, Option.bind_none]

/-- At the price 1 the profit loses its low 192 bits. -/
theorem toNat_convert_one {profit native : U256}
    (h : v3SpotPriceConvert profit 1 true = some native) :
    native.toNat = profit.toNat / 2 ^ 192 := by
  have hexact := v3SpotPriceConvert_exact h
  simp only [Pricing.exact] at hexact
  rw [show (1 : U256).toNat = 1 from rfl] at hexact
  omega

/-- By which reserves the profit is converted when there are any: `rNative` of the native token
for `rToken` of the start token. -/
theorem convert_v2_eq_some {rToken rNative profit : U256} (h : rToken ≠ 0) :
    (Pricing.v2 rToken rNative).convert profit = some (profit * rNative / rToken) :=
  if_neg h

theorem mul_div_self {rToken rNative : U256} (h : rToken ≠ 0) (hToken : rToken.toNat < 2 ^ 112)
    (hNative : rNative.toNat < 2 ^ 112) : rToken * rNative / rToken = rNative := by
  have hpos : 0 < rToken.toNat := toNat_pos h
  have hfits : rToken.toNat * rNative.toNat < 2 ^ 256 :=
    lt_of_lt_of_le (Nat.mul_lt_mul'' hToken hNative) (by decide)
  apply BitVec.eq_of_toNat_eq
  rw [BitVec.toNat_udiv, toNat_mul_of_lt hfits, Nat.mul_div_cancel_left _ hpos]

/-- No reserves convert as a spot price does, unless both make nothing of any profit. -/
theorem convert_eq_spot_iff {rToken rNative : U256} {startIsToken0 : Bool}
    (hprice : sqrtPriceX96.toNat < 2 ^ 160) (hToken : rToken.toNat < 2 ^ 112)
    (hNative : rNative.toNat < 2 ^ 112) :
    (∀ profit, profit ≠ 0 → (Pricing.v2 rToken rNative).convert profit =
        v3SpotPriceConvert profit sqrtPriceX96 startIsToken0) ↔
      sqrtPriceX96 = 0 ∧ rNative = 0 ∧ rToken ≠ 0 := by
  constructor
  · intro h
    have hreserve : rToken ≠ 0 := by
      rintro rfl
      obtain ⟨native, hnative⟩ := convert_one_isSome startIsToken0 hprice
      have heq := h 1 (by decide)
      rw [hnative] at heq
      cases heq
    -- the profit rToken is worth exactly rNative
    have hunit := h rToken hreserve
    rw [convert_v2_eq_some hreserve, mul_div_self hreserve hToken hNative] at hunit
    -- the largest profit leaves the prices 0 and 1, and 1 only for the first token
    have hlow : sqrtPriceX96 = 0 ∨ startIsToken0 = true ∧ sqrtPriceX96 = 1 := by
      by_contra hnot
      rw [not_or, not_and] at hnot
      have hmax := h (-1) (by decide)
      rw [convert_v2_eq_some hreserve, convert_max_eq_none hnot.1 hnot.2] at hmax
      cases hmax
    rcases hlow with rfl | ⟨rfl, rfl⟩
    · have hzero : rNative = 0 := by simpa [v3SpotPriceConvert] using hunit
      exact ⟨rfl, hzero, hreserve⟩
    · -- at the price 1 the profit rToken is worth nothing, and 2^192 is worth 1
      have hzero : rNative.toNat = 0 := by
        rw [toNat_convert_one hunit.symm]
        omega
      have hlarge := h (BitVec.ofNat 256 (2 ^ 192)) (by decide)
      rw [convert_v2_eq_some hreserve, BitVec.eq_of_toNat_eq (y := 0) hzero] at hlarge
      have hone := toNat_convert_one hlarge.symm
      simp at hone
  · rintro ⟨rfl, rfl, hreserve⟩ profit -
    rw [convert_v2_eq_some hreserve]
    simp [v3SpotPriceConvert]

/-! ## The price pool of a token -/

/-- The token is priced by a pool whose slot 0 is loaded. -/
structure PricedBy (w : Worker) (db : StateDb) (startToken pricePool : Address)
    (sqrtPriceX96 : U256) : Prop where
  notNative : startToken ≠ w.nativeToken
  pool : w.tokenPricePools startToken = some pricePool
  slot0 : ∃ tick, db.readV3Slot0 pricePool = some (sqrtPriceX96, tick)

/-- The spot price of the pool for the token. -/
def spot (w : Worker) (startToken : Address) (sqrtPriceX96 profit : U256) : Option U256 :=
  v3SpotPriceConvert profit sqrtPriceX96 (decide (startToken < w.nativeToken))

theorem PricedBy.price_lt (h : PricedBy w db startToken pricePool sqrtPriceX96) :
    sqrtPriceX96.toNat < 2 ^ 160 := by
  obtain ⟨tick, hslot0⟩ := h.slot0
  exact StateDb.readV3Slot0_lt hslot0

theorem PricedBy.profitNative_of_none (h : PricedBy w db startToken pricePool sqrtPriceX96)
    (hslot : db.slot pricePool StateDb.v2ReservesSlot = none) (profit : U256) :
    profitNative w db startToken profit = spot w startToken sqrtPriceX96 profit := by
  obtain ⟨tick, hslot0⟩ := h.slot0
  unfold profitNative pricing
  rw [if_neg h.notNative, h.pool]
  simp only [StateDb.readV2Reserves_eq_none_iff.mpr hslot, hslot0]
  rfl

theorem PricedBy.pricing_of_some (h : PricedBy w db startToken pricePool sqrtPriceX96)
    (hslot : db.slot pricePool StateDb.v2ReservesSlot ≠ none) :
    ∃ rToken rNative, pricing w db startToken = .v2 rToken rNative ∧ rToken.toNat < 2 ^ 112 ∧
      rNative.toNat < 2 ^ 112 := by
  cases hreserves : db.readV2Reserves pricePool with
  | none => exact absurd (StateDb.readV2Reserves_eq_none_iff.mp hreserves) hslot
  | some reserves =>
    obtain ⟨r0, r1⟩ := reserves
    obtain ⟨h0, h1⟩ := StateDb.readV2Reserves_lt hreserves
    unfold pricing
    rw [if_neg h.notNative, h.pool]
    simp only [hreserves]
    split
    · exact ⟨r0, r1, rfl, h0, h1⟩
    · exact ⟨r1, r0, rfl, h1, h0⟩

/-- Slot 8 reads as reserves that are worth nothing, beside a price of nothing. -/
def Worthless (w : Worker) (db : StateDb) (startToken : Address) (sqrtPriceX96 : U256) : Prop :=
  sqrtPriceX96 = 0 ∧ ∃ rToken, rToken ≠ 0 ∧ pricing w db startToken = .v2 rToken 0

/-- The profit is converted at the spot price exactly when slot 8 is not loaded. -/
theorem PricedBy.profitNative_eq_spot_iff
    (h : PricedBy w db startToken pricePool sqrtPriceX96) :
    (∀ profit, profit ≠ 0 →
        profitNative w db startToken profit = spot w startToken sqrtPriceX96 profit) ↔
      db.slot pricePool StateDb.v2ReservesSlot = none ∨
        Worthless w db startToken sqrtPriceX96 := by
  by_cases hslot : db.slot pricePool StateDb.v2ReservesSlot = none
  · exact iff_of_true (fun profit _ => h.profitNative_of_none hslot profit) (.inl hslot)
  · obtain ⟨rToken, rNative, hpricing, hToken, hNative⟩ := h.pricing_of_some hslot
    rw [or_iff_right hslot]
    unfold profitNative Worthless
    rw [hpricing]
    refine (convert_eq_spot_iff h.price_lt hToken hNative).trans ?_
    constructor
    · rintro ⟨hprice, rfl, hreserve⟩
      exact ⟨hprice, rToken, hreserve, rfl⟩
    · rintro ⟨hprice, rToken', hreserve, heq⟩
      cases heq
      exact ⟨hprice, rfl, hreserve⟩

/-- What a simulation writes back keeps the slot 0 of the price pool. -/
theorem PricedBy.writeBack (h : PricedBy w db startToken pricePool sqrtPriceX96) (sim : SimDb) :
    PricedBy w (sim.writeBack db) startToken pricePool sqrtPriceX96 := by
  obtain ⟨tick, hslot0⟩ := h.slot0
  refine ⟨h.notNative, h.pool, tick, ?_⟩
  unfold StateDb.readV3Slot0 at hslot0 ⊢
  rw [SimDb.slot_writeBack]
  cases hslot : db.slot pricePool StateDb.v3Slot0 with
  | none =>
    rw [hslot] at hslot0
    cases hslot0
  | some packed =>
    rw [hslot] at hslot0
    exact hslot0

/-- **A profit is converted at the spot price exactly as long as slot 8 of the price pool is not
loaded; and a simulation in between changes no conversion exactly when that slot was loaded before
or is not fetched. The one exception is a pool that converts every profit to nothing.** -/
theorem profitNative_cached_iff (h : PricedBy w db startToken pricePool sqrtPriceX96)
    (fetch : Address → U256 → U256) (accesses : List SimDb.Access) :
    let db' := ((SimDb.snapshot db).run fetch accesses).writeBack db
    ((∀ profit, profit ≠ 0 →
        profitNative w db startToken profit = spot w startToken sqrtPriceX96 profit) ↔
      db.slot pricePool StateDb.v2ReservesSlot = none ∨
        Worthless w db startToken sqrtPriceX96) ∧
    ((∀ profit, profit ≠ 0 →
        profitNative w db' startToken profit = profitNative w db startToken profit) ↔
      db.slot pricePool StateDb.v2ReservesSlot ≠ none ∨
        .storage pricePool StateDb.v2ReservesSlot ∉ accesses ∨
        Worthless w db' startToken sqrtPriceX96) := by
  intro db'
  have h' : PricedBy w db' startToken pricePool sqrtPriceX96 := h.writeBack _
  refine ⟨h.profitNative_eq_spot_iff, ?_⟩
  by_cases hslot : db.slot pricePool StateDb.v2ReservesSlot = none
  · have hfetched : db'.slot pricePool StateDb.v2ReservesSlot = none ↔
        .storage pricePool StateDb.v2ReservesSlot ∉ accesses := by
      rw [SimDb.slot_writeBack, SimDb.slot_run, SimDb.slot_snapshot, hslot]
      simp
    rw [or_iff_right (not_not_intro hslot), ← hfetched, ← h'.profitNative_eq_spot_iff]
    refine forall₂_congr fun profit _ => ?_
    rw [h.profitNative_of_none hslot]
  · have hkept : db'.slot pricePool StateDb.v2ReservesSlot =
        db.slot pricePool StateDb.v2ReservesSlot := by
      rw [SimDb.slot_writeBack]
      cases hloaded : db.slot pricePool StateDb.v2ReservesSlot with
      | none => exact absurd hloaded hslot
      | some packed => rfl
    refine iff_of_true (fun profit _ => ?_) (.inl hslot)
    have hreserves : db'.readV2Reserves pricePool = db.readV2Reserves pricePool := by
      unfold StateDb.readV2Reserves
      rw [hkept]
    unfold profitNative pricing
    rw [if_neg h.notNative, if_neg h.notNative, h.pool]
    simp only [hreserves]
    cases hsome : db.readV2Reserves pricePool with
    | none => exact absurd (StateDb.readV2Reserves_eq_none_iff.mp hsome) hslot
    | some reserves => rfl

/-! ### An observation read as reserves -/

/-- Pool 9 at the price 1, with nothing else loaded. -/
def spotDb : StateDb := StateDb.empty.updateSlot 9 0 (BitVec.ofNat 256 (2 ^ 96))

/-- The first observation of a pool: its flag, and a timestamp. -/
def observation : U256 := BitVec.ofNat 256 (2 ^ 248 + 1700000000)

theorem spotDb_pricedBy :
    PricedBy sampleWorker spotDb 2 9 (BitVec.ofNat 256 (2 ^ 96)) :=
  ⟨by decide, rfl, 0, rfl⟩

/-- A profit of 1000 is worth 1000. After one simulation that met the observation, it is worth
nothing: the path is given up. -/
theorem observation_changes_profit :
    PricedBy sampleWorker spotDb 2 9 (BitVec.ofNat 256 (2 ^ 96)) ∧
      profitNative sampleWorker spotDb 2 1000 = some 1000 ∧
        profitNative sampleWorker (((SimDb.snapshot spotDb).run (fun _ _ => observation)
          [.storage 9 8]).writeBack spotDb) 2 1000 = none := by
  refine ⟨spotDb_pricedBy, ?_, ?_⟩
  · decide
  · decide

/-- Before that a profit is priced by the price of the pool. -/
theorem profitNative_cached_iff_spotDb :
    profitNative sampleWorker spotDb 2 1000000 =
      spot sampleWorker 2 (BitVec.ofNat 256 (2 ^ 96)) 1000000 := by
  have hpriced := (profitNative_cached_iff spotDb_pricedBy (fun _ _ => observation)
    [.storage 9 8]).1.mpr (.inl rfl)
  exact hpriced 1000000 (by decide)

end Simulator

end ArbBot
