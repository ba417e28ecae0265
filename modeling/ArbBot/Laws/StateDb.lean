import ArbBot.StateDb

/-!
# One layout per pool

The readers of ticks and bitmap words choose the mapping by the set of Pancake pools. The reader
of the liquidity does not look at that set: it tries slot 4 and then slot 5, and takes the first
one that is positive. So it reads a pool's own slot only where the other layout's slot happens not
to stand in the way, and it ignores the other slot only where a Uniswap pool's slot 4 is positive.
-/

namespace ArbBot

namespace StateDb

theorem slot_updateSlot (db : StateDb) (address a : Address) (key k value : U256) :
    (db.updateSlot address key value).slot a k =
      if a = address ∧ k = key then some value else db.slot a k := by
  unfold slot updateSlot
  by_cases ha : a = address
  · subst ha
    by_cases hk : k = key
    · simp [hk]
    · cases db.accounts a <;> simp [hk]
  · simp [ha]

/-! ## The ranges of what is read -/

theorem toNat_and_le (x mask : U256) : (x &&& mask).toNat ≤ mask.toNat := by
  rw [BitVec.toNat_and]
  exact Nat.and_le_right

theorem readV2Reserves_eq_none_iff {db : StateDb} {pool : Address} :
    db.readV2Reserves pool = none ↔ db.slot pool v2ReservesSlot = none := by
  unfold readV2Reserves
  cases db.slot pool v2ReservesSlot <;> simp

theorem readV2Reserves_lt {db : StateDb} {pool : Address} {r0 r1 : U256}
    (h : db.readV2Reserves pool = some (r0, r1)) : r0.toNat < 2 ^ 112 ∧ r1.toNat < 2 ^ 112 := by
  simp only [readV2Reserves, Option.bind_eq_bind, Option.bind_eq_some_iff] at h
  obtain ⟨packed, -, h⟩ := h
  cases h
  exact ⟨lt_of_le_of_lt (toNat_and_le _ _) (by decide),
    lt_of_le_of_lt (toNat_and_le _ _) (by decide)⟩

theorem readV3Slot0_lt {db : StateDb} {pool : Address} {sqrtPriceX96 : U256} {tick : BitVec 32}
    (h : db.readV3Slot0 pool = some (sqrtPriceX96, tick)) : sqrtPriceX96.toNat < 2 ^ 160 := by
  simp only [readV3Slot0, Option.bind_eq_bind, Option.bind_eq_some_iff] at h
  obtain ⟨packed, -, h⟩ := h
  cases h
  exact lt_of_le_of_lt (toNat_and_le _ _) (by decide)

/-- The price and the tick of a slot 0. -/
def unpackSlot0 (packed : U256) : U256 × BitVec 32 :=
  let tickRaw : BitVec 32 := ((packed >>> 160) &&& 0xFFFFFF).setWidth 32
  (packed &&& ((1 <<< 160) - 1),
    if tickRaw &&& 0x800000 ≠ 0 then tickRaw ||| 0xFF000000 else tickRaw)

theorem readV3Slot0_eq_map (db : StateDb) (pool : Address) :
    db.readV3Slot0 pool = (db.slot pool v3Slot0).map unpackSlot0 := by
  unfold readV3Slot0
  cases db.slot pool v3Slot0 <;> rfl

/-! ## Two slots in turn -/

/-- The first value if it is positive, else the second if it is positive, else the first one
loaded. -/
def pick (first second : Option (BitVec 128)) : Option (BitVec 128) :=
  first.filter (0 < ·) <|> second.filter (0 < ·) <|> first <|> second

theorem readV3Liquidity_eq_pick (db : StateDb) (pool : Address) :
    db.readV3Liquidity pool =
      pick (db.low128 pool v3LiquiditySlot) (db.low128 pool v3LiquiditySlotPancake) := by
  unfold readV3Liquidity pick
  rw [List.findSome?_cons, List.findSome?_cons, List.findSome?_nil]
  cases (db.low128 pool v3LiquiditySlot).filter (0 < ·) with
  | some x => rfl
  | none => cases (db.low128 pool v3LiquiditySlotPancake).filter (0 < ·) <;> rfl

/-- A loaded value other than zero. -/
def Positive (v : Option (BitVec 128)) : Prop := ∃ x, v = some x ∧ x ≠ 0

theorem positive_some {x : BitVec 128} : Positive (some x) ↔ x ≠ 0 :=
  ⟨fun ⟨_, heq, hne⟩ => Option.some.inj heq ▸ hne, fun hne => ⟨x, rfl, hne⟩⟩

theorem filter_of_positive {v : Option (BitVec 128)} (h : Positive v) :
    v.filter (0 < ·) = v := by
  obtain ⟨x, rfl, hx⟩ := h
  have hpos : 0 < x :=
    BitVec.lt_def.mpr (Nat.pos_of_ne_zero fun hzero => hx (BitVec.eq_of_toNat_eq hzero))
  rw [Option.filter_some, if_pos (decide_eq_true hpos)]

theorem filter_of_not_positive {v : Option (BitVec 128)} (h : ¬ Positive v) :
    v.filter (0 < ·) = none := by
  cases v with
  | none => rfl
  | some x =>
    obtain rfl : x = 0 := by_contra fun hx => h ⟨x, rfl, hx⟩
    rfl

variable {first second : Option (BitVec 128)}

theorem pick_of_positive (h : Positive first) : pick first second = first := by
  unfold pick
  rw [filter_of_positive h]
  obtain ⟨x, rfl, -⟩ := h
  rfl

theorem pick_of_second_positive (h : ¬ Positive first) (hsecond : Positive second) :
    pick first second = second := by
  unfold pick
  rw [filter_of_not_positive h, filter_of_positive hsecond]
  obtain ⟨x, rfl, -⟩ := hsecond
  rfl

theorem pick_of_not_positive (h : ¬ Positive first) (hsecond : ¬ Positive second) :
    pick first second = (first <|> second) := by
  unfold pick
  rw [filter_of_not_positive h, filter_of_not_positive hsecond]
  rfl

/-- When the first slot is the one returned. -/
theorem pick_eq_first_iff :
    pick first second = first ↔
      Positive first ∨ ¬ Positive second ∧ (second = none ∨ first.isSome) := by
  by_cases hfirst : Positive first
  · exact iff_of_true (pick_of_positive hfirst) (.inl hfirst)
  · rw [or_iff_right hfirst]
    by_cases hsecond : Positive second
    · rw [pick_of_second_positive hfirst hsecond]
      refine iff_of_false (fun he => hfirst (he ▸ hsecond)) fun h => h.1 hsecond
    · rw [pick_of_not_positive hfirst hsecond, and_iff_right hsecond]
      cases first <;> cases second <;> simp

/-- When the second slot is the one returned. -/
theorem pick_eq_second_iff :
    pick first second = second ↔
      first = none ∨ first = second ∨ ¬ Positive first ∧ second.isSome := by
  by_cases hfirst : Positive first
  · rw [pick_of_positive hfirst]
    obtain ⟨x, rfl, hx⟩ := hfirst
    have hpos : Positive (some x) := ⟨x, rfl, hx⟩
    simp [hpos]
  · by_cases hsecond : Positive second
    · rw [pick_of_second_positive hfirst hsecond]
      obtain ⟨x, rfl, -⟩ := hsecond
      simp [hfirst]
    · rw [pick_of_not_positive hfirst hsecond]
      cases first with
      | none => simp
      | some x =>
        obtain rfl : x = 0 := by_contra fun hx => hfirst ⟨x, rfl, hx⟩
        cases second with
        | none => simp
        | some y =>
          obtain rfl : y = 0 := by_contra fun hy => hsecond ⟨y, rfl, hy⟩
          simp

/-- The second slot never matters only when the first one is positive. -/
theorem positive_of_second_irrelevant
    (h : ∀ x, pick first (some x) = pick first second) : Positive first := by
  by_contra hfirst
  have hone : Positive (some (1 : BitVec 128)) := ⟨1, rfl, by decide⟩
  have htwo : Positive (some (2 : BitVec 128)) := ⟨2, rfl, by decide⟩
  have heq := (h 1).trans (h 2).symm
  rw [pick_of_second_positive hfirst hone, pick_of_second_positive hfirst htwo] at heq
  exact absurd (Option.some.inj heq) (by decide)

/-- The first slot always matters. -/
theorem not_first_irrelevant : ¬ ∀ x, pick (some x) second = pick first second := by
  intro h
  have hone : Positive (some (1 : BitVec 128)) := ⟨1, rfl, by decide⟩
  have htwo : Positive (some (2 : BitVec 128)) := ⟨2, rfl, by decide⟩
  have heq := (h 1).trans (h 2).symm
  rw [pick_of_positive hone, pick_of_positive htwo] at heq
  exact absurd (Option.some.inj heq) (by decide)

/-- A positive value is the one returned only from a slot that holds it. -/
theorem positive_eq_pick_iff {x : BitVec 128} (hx : x ≠ 0) :
    some x = pick first second ↔ first = some x ∨ ¬ Positive first ∧ second = some x := by
  by_cases hfirst : Positive first
  · rw [pick_of_positive hfirst]
    simp [hfirst, eq_comm]
  · have hne : first ≠ some x := fun h => hfirst ⟨x, h, hx⟩
    rw [or_iff_right hne, and_iff_right hfirst]
    by_cases hsecond : Positive second
    · rw [pick_of_second_positive hfirst hsecond, eq_comm]
    · have hne' : second ≠ some x := fun h => hsecond ⟨x, h, hx⟩
      rw [pick_of_not_positive hfirst hsecond, iff_false_intro hne', iff_false]
      cases first with
      | none => exact Ne.symm hne'
      | some y => exact Ne.symm hne

/-- When it makes no difference that the first slot becomes zero. -/
theorem pick_zero_eq_iff :
    pick (some 0) second = pick first second ↔
      first = some 0 ∨ second.isSome ∧ (Positive first → second = first) := by
  have hzero : ¬ Positive (some (0 : BitVec 128)) := fun ⟨_, heq, hne⟩ => hne (Option.some.inj heq).symm
  by_cases hfirst : Positive first
  · obtain ⟨y, rfl, hy⟩ := hfirst
    have hpos : Positive (some y) := ⟨y, rfl, hy⟩
    rw [pick_of_positive hpos, eq_comm, positive_eq_pick_iff hy]
    simp only [hzero, hpos, not_false_iff, true_and, forall_const]
    constructor
    · rintro (h | h)
      · exact .inl h.symm
      · exact .inr ⟨by rw [h]; rfl, h⟩
    · rintro (h | h)
      · exact .inl h.symm
      · exact .inr h.2
  · simp only [hfirst, false_implies, and_true]
    by_cases hsecond : Positive second
    · rw [pick_of_second_positive hzero hsecond, pick_of_second_positive hfirst hsecond]
      obtain ⟨y, rfl, -⟩ := hsecond
      exact iff_of_true rfl (.inr rfl)
    · rw [pick_of_not_positive hzero hsecond, pick_of_not_positive hfirst hsecond]
      cases first with
      | some y =>
        obtain rfl : y = 0 := by_contra fun hy => hfirst ⟨y, rfl, hy⟩
        exact iff_of_true rfl (.inl rfl)
      | none =>
        cases second with
        | none => simp
        | some y =>
          obtain rfl : y = 0 := by_contra fun hy => hsecond ⟨y, rfl, hy⟩
          simp

@[simp] theorem low128_updateSlot_self (db : StateDb) (pool : Address) (key : U256)
    (x : BitVec 128) : (db.updateSlot pool key (x.setWidth 256)).low128 pool key = some x := by
  unfold low128
  rw [slot_updateSlot, if_pos ⟨rfl, rfl⟩]
  simp

theorem low128_congr {db db' : StateDb} {pool : Address} {key : U256}
    (h : db'.slot pool key = db.slot pool key) : db'.low128 pool key = db.low128 pool key := by
  unfold low128
  rw [h]

theorem readV3Liquidity_set_first (db : StateDb) (pool : Address) (x : BitVec 128) :
    (db.updateSlot pool v3LiquiditySlot (x.setWidth 256)).readV3Liquidity pool =
      pick (some x) (db.low128 pool v3LiquiditySlotPancake) := by
  have hother : (db.updateSlot pool v3LiquiditySlot (x.setWidth 256)).slot pool
      v3LiquiditySlotPancake = db.slot pool v3LiquiditySlotPancake := by
    rw [slot_updateSlot, if_neg]
    rintro ⟨-, hkey⟩
    exact absurd hkey (by decide)
  rw [readV3Liquidity_eq_pick, low128_updateSlot_self, low128_congr hother]

theorem readV3Liquidity_set_second (db : StateDb) (pool : Address) (x : BitVec 128) :
    (db.updateSlot pool v3LiquiditySlotPancake (x.setWidth 256)).readV3Liquidity pool =
      pick (db.low128 pool v3LiquiditySlot) (some x) := by
  have hother : (db.updateSlot pool v3LiquiditySlotPancake (x.setWidth 256)).slot pool
      v3LiquiditySlot = db.slot pool v3LiquiditySlot := by
    rw [slot_updateSlot, if_neg]
    rintro ⟨-, hkey⟩
    exact absurd hkey (by decide)
  rw [readV3Liquidity_eq_pick, low128_updateSlot_self, low128_congr hother]

end StateDb

namespace BlockStateDb

open StateDb

/-- Where a pool contract keeps what the readers look for. -/
structure Layout where
  liquidity : U256
  /-- The liquidity slot of the other layout. -/
  otherLiquidity : U256
  tickBase : UInt64
  bitmapBase : UInt64

def uniswapLayout : Layout := ⟨v3LiquiditySlot, v3LiquiditySlotPancake, 5, 6⟩
def pancakeLayout : Layout := ⟨v3LiquiditySlotPancake, v3LiquiditySlot, 6, 7⟩

def layout (db : BlockStateDb) (pool : Address) : Layout :=
  if pool ∈ db.pancakeV3Pools then pancakeLayout else uniswapLayout

/-- Every reader goes by the layout of the pool. -/
structure ReadsOwnLayout (keccak : Keccak) (db : BlockStateDb) (pool : Address) : Prop where
  liquidity : db.readV3Liquidity pool = db.low128 pool (db.layout pool).liquidity
  tick : ∀ tick, db.readV3Tick keccak pool tick =
    (db.slot pool (v3TickSlotBase keccak tick (db.layout pool).tickBase)).map unpackTick
  bitmap : ∀ wordPos, db.readV3TickBitmap keccak pool wordPos =
    db.slot pool (v3TickBitmapSlotBase keccak wordPos (db.layout pool).bitmapBase)

/-- Whatever stands in the liquidity slot of the other layout, the liquidity read is the same. -/
def IgnoresOtherLayout (db : BlockStateDb) (pool : Address) : Prop :=
  ∀ db' : StateDb, (∀ a k, ¬ (a = pool ∧ k = (db.layout pool).otherLiquidity) →
    db'.slot a k = db.slot a k) → db'.readV3Liquidity pool = db.readV3Liquidity pool

variable {keccak : Keccak} {db : BlockStateDb} {pool : Address}

theorem readsOwnLayout_iff_liquidity :
    ReadsOwnLayout keccak db pool ↔
      db.readV3Liquidity pool = db.low128 pool (db.layout pool).liquidity := by
  refine ⟨fun h => h.liquidity, fun h => ⟨h, fun tick => ?_, fun wordPos => ?_⟩⟩
  · unfold readV3Tick layout
    split <;> rfl
  · unfold readV3TickBitmap layout
    split <;> rfl

/-- The condition for a pool's own slot to be the one read. -/
def OwnSlotWins (db : BlockStateDb) (pool : Address) : Prop :=
  let own := db.low128 pool (db.layout pool).liquidity
  let other := db.low128 pool (db.layout pool).otherLiquidity
  if pool ∈ db.pancakeV3Pools then
    other = none ∨ other = own ∨ ¬ Positive other ∧ own.isSome
  else Positive own ∨ ¬ Positive other ∧ (other = none ∨ own.isSome)

/-- **A pool is read by its own layout exactly when its own slot wins, and the other layout's slot
is ignored exactly for a pool of the Uniswap layout whose slot 4 is positive.** -/
theorem readsOwnLayout_iff :
    (ReadsOwnLayout keccak db pool ↔ OwnSlotWins db pool) ∧
      (IgnoresOtherLayout db pool ↔
        pool ∉ db.pancakeV3Pools ∧ Positive (db.low128 pool v3LiquiditySlot)) := by
  -- databases that differ from this one in a slot of the pool
  have hset : ∀ key (value : U256) a k, ¬ (a = pool ∧ k = key) →
      (db.toStateDb.updateSlot pool key value).slot a k = db.slot a k := fun key value a k hne => by
    rw [slot_updateSlot, if_neg hne]
  rw [readsOwnLayout_iff_liquidity, readV3Liquidity_eq_pick]
  unfold OwnSlotWins IgnoresOtherLayout layout
  by_cases hpancake : pool ∈ db.pancakeV3Pools
  · simp only [if_pos hpancake]
    refine ⟨pick_eq_second_iff, iff_of_false (fun h => ?_) fun h => h.1 hpancake⟩
    apply not_first_irrelevant
    intro x
    rw [← readV3Liquidity_eq_pick, ← readV3Liquidity_set_first]
    exact h _ (hset _ _)
  · simp only [if_neg hpancake]
    refine ⟨pick_eq_first_iff, ⟨fun h => ⟨hpancake, ?_⟩, fun h db' hdb' => ?_⟩⟩
    · apply positive_of_second_irrelevant
      intro x
      rw [← readV3Liquidity_eq_pick, ← readV3Liquidity_set_second]
      exact h _ (hset _ _)
    · have hown : db'.slot pool v3LiquiditySlot = db.slot pool v3LiquiditySlot := by
        apply hdb'
        rintro ⟨-, hkey⟩
        exact absurd hkey (by decide)
      rw [readV3Liquidity_eq_pick, readV3Liquidity_eq_pick, low128_congr hown,
        pick_of_positive h.2, pick_of_positive h.2]

/-! ### Protocol fees read as liquidity -/

/-- A Pancake pool with protocol fees 7 in slot 4 and liquidity 1000 in slot 5. -/
def pancakeDb : BlockStateDb where
  toStateDb := (StateDb.empty.updateSlot 1 4 7).updateSlot 1 5 1000
  trackedPools := {1}
  pancakeV3Pools := {1}

/-- The protocol fees are taken for the liquidity, and emptying them changes what is read. -/
theorem pancake_reads_protocolFees :
    ∃ (db : BlockStateDb) (pool : Address), pool ∈ db.pancakeV3Pools ∧
      (∀ keccak, ¬ ReadsOwnLayout keccak db pool) ∧ ¬ IgnoresOtherLayout db pool := by
  have hread : pancakeDb.readV3Liquidity 1 = some 7 := by decide
  refine ⟨pancakeDb, 1, by decide, fun keccak h => ?_, fun h => ?_⟩
  · have hown : pancakeDb.readV3Liquidity 1 = some 1000 := h.liquidity.trans (by decide)
    rw [hread] at hown
    exact absurd (Option.some.inj hown) (by decide)
  · have hemptied := h (pancakeDb.toStateDb.updateSlot 1 4 0) fun a k hne =>
      (slot_updateSlot _ _ _ _ _ _).trans (if_neg hne)
    rw [hread] at hemptied
    exact absurd hemptied (by decide)

end BlockStateDb

end ArbBot
