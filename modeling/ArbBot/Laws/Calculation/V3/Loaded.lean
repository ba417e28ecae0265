import ArbBot.Laws.Calculation.V3.NextTick
import ArbBot.Laws.Calculation.V3.Steps
import ArbBot.Laws.StateDb

/-!
# What a quote depends on

A bitmap word that is not loaded reads as zero, and a liquidity slot that is not loaded gives way
to the other one. So a quote can change when more of the state is loaded. It does not if there is
nothing to walk, or the liquidity slots decide between themselves and every bitmap word the walk
reads is loaded. Otherwise a larger database answers one of these reads differently.
-/

namespace ArbBot

open StateDb

/-- Every slot that is loaded in the first database is loaded in the second, with the same value,
and the Pancake pools are the same. -/
structure BlockStateDb.Extends (db db' : BlockStateDb) : Prop where
  slot : ∀ {pool key value}, db.slot pool key = some value → db'.slot pool key = some value
  pancakeV3Pools : db'.pancakeV3Pools = db.pancakeV3Pools

/-- The liquidity that is read does not depend on a slot that is not loaded. -/
def LiquidityLoaded (db : StateDb) (pool : Address) : Prop :=
  Positive (db.low128 pool v3LiquiditySlot) ∨
    (db.low128 pool v3LiquiditySlot).isSome ∧ (db.low128 pool v3LiquiditySlotPancake).isSome

namespace V3

open Lib

variable {math : V3Math} {keccak : Keccak} {db db' : BlockStateDb} {pool : Address}
  {zeroForOne : Bool} {fee : UInt32} {tickSpacing : Int} {w w' : Walk}

section

variable (math keccak db pool zeroForOne fee tickSpacing)

/-- The bitmap word the next step reads is loaded. -/
def WordLoaded (w : Walk) : Prop :=
  ∀ compressed, compress w.tick tickSpacing = some compressed →
    (db.readV3TickBitmap keccak pool (wordPos (searchFrom zeroForOne compressed))).isSome

/-- A property of the state before every step a walk completes, with so many iterations left. -/
def EveryStep (P : Walk → Prop) : Nat → Walk → Prop
  | 0, _ => True
  | n + 1, w => w.amountRemaining ≠ 0 ∧ 0 < w.liq →
      ∀ w', walkStep math keccak db pool zeroForOne fee tickSpacing w = some w' →
        P w ∧ EveryStep P n w'

/-- A property of the state before one of them. -/
def SomeStep (P : Walk → Prop) : Nat → Walk → Prop
  | 0, _ => False
  | n + 1, w => (w.amountRemaining ≠ 0 ∧ 0 < w.liq) ∧
      ∃ w', walkStep math keccak db pool zeroForOne fee tickSpacing w = some w' ∧
        (P w ∨ SomeStep P n w')

end

theorem not_everyStep {P : Walk → Prop} {n : Nat} :
    ¬ EveryStep math keccak db pool zeroForOne fee tickSpacing P n w ↔
      SomeStep math keccak db pool zeroForOne fee tickSpacing (fun w => ¬ P w) n w := by
  induction n generalizing w with
  | zero => exact iff_of_false (fun h => h trivial) id
  | succ n ih =>
    simp only [EveryStep, SomeStep, Classical.not_imp, not_forall, Classical.not_and_iff_not_or_not,
      ih]

/-- Where one step is found, something that holds of it does. -/
theorem SomeStep.exists {P : Walk → Prop} {Q : BlockStateDb → Walk → Prop} {n : Nat}
    (hwitness : ∀ w, P w → ∃ db', db.Extends db' ∧ Q db' w)
    (h : SomeStep math keccak db pool zeroForOne fee tickSpacing P n w) :
    ∃ db', db.Extends db' ∧
      SomeStep math keccak db pool zeroForOne fee tickSpacing (Q db') n w := by
  induction n generalizing w with
  | zero => exact h.elim
  | succ n ih =>
    obtain ⟨hgoes, w', hstep, hhere | hlater⟩ := h
    · obtain ⟨db', hextends, hq⟩ := hwitness w hhere
      exact ⟨db', hextends, hgoes, w', hstep, .inl hq⟩
    · obtain ⟨db', hextends, hq⟩ := ih hlater
      exact ⟨db', hextends, hgoes, w', hstep, .inr hq⟩

/-! ## Reads of a larger database -/

theorem readV3Slot0_extends (h : db.Extends db') {slot0 : U256 × BitVec 32}
    (hread : db.readV3Slot0 pool = some slot0) : db'.readV3Slot0 pool = some slot0 := by
  rw [readV3Slot0_eq_map] at hread ⊢
  obtain ⟨packed, hslot, rfl⟩ := Option.map_eq_some_iff.1 hread
  rw [h.slot hslot]
  rfl

theorem low128_extends (h : db.Extends db') {key : U256} {x : BitVec 128}
    (hread : db.low128 pool key = some x) : db'.low128 pool key = some x := by
  obtain ⟨packed, hslot, rfl⟩ := Option.map_eq_some_iff.1 hread
  unfold low128
  rw [h.slot hslot]
  rfl

theorem readV3Liquidity_extends (h : db.Extends db')
    (hloaded : LiquidityLoaded db.toStateDb pool) :
    db'.readV3Liquidity pool = db.readV3Liquidity pool := by
  rw [readV3Liquidity_eq_pick, readV3Liquidity_eq_pick]
  rcases hloaded with hpositive | ⟨hfirst, hsecond⟩
  · obtain ⟨x, hx, hne⟩ := hpositive
    rw [low128_extends h hx, hx, pick_of_positive ⟨x, rfl, hne⟩, pick_of_positive ⟨x, rfl, hne⟩]
  · obtain ⟨x, hx⟩ := Option.isSome_iff_exists.1 hfirst
    obtain ⟨y, hy⟩ := Option.isSome_iff_exists.1 hsecond
    rw [low128_extends h hx, low128_extends h hy, hx, hy]

theorem readV3Tick_extends (h : db.Extends db') {tick : BitVec 32} {entry : BitVec 128 × BitVec 128}
    (hread : db.readV3Tick keccak pool tick = some entry) :
    db'.readV3Tick keccak pool tick = some entry := by
  simp only [BlockStateDb.readV3Tick, h.pancakeV3Pools] at hread ⊢
  obtain ⟨packed, hslot, rfl⟩ := Option.map_eq_some_iff.1 hread
  rw [h.slot hslot]
  rfl

theorem readV3TickBitmap_extends (h : db.Extends db') {word : BitVec 16}
    (hloaded : (db.readV3TickBitmap keccak pool word).isSome) :
    db'.readV3TickBitmap keccak pool word = db.readV3TickBitmap keccak pool word := by
  obtain ⟨bits, hread⟩ := Option.isSome_iff_exists.1 hloaded
  rw [hread]
  simp only [BlockStateDb.readV3TickBitmap, h.pancakeV3Pools] at hread ⊢
  exact h.slot hread

/-! ## A step, and a walk -/

theorem findNextInitializedTick_extends (h : db.Extends db')
    (hloaded : WordLoaded keccak db pool zeroForOne tickSpacing w) :
    findNextInitializedTick keccak db' pool w.tick tickSpacing zeroForOne =
      findNextInitializedTick keccak db pool w.tick tickSpacing zeroForOne := by
  unfold findNextInitializedTick
  apply Option.map_congr
  intro compressed hcompress
  rw [readWordOf, readWordOf, readV3TickBitmap_extends h (hloaded compressed hcompress)]

theorem reachTick_extends (h : db.Extends db') {hop : Hop} {liq : BitVec 128}
    (hreach : reachTick keccak db pool zeroForOne w hop = some liq) :
    reachTick keccak db' pool zeroForOne w hop = some liq := by
  unfold reachTick at hreach ⊢
  split
  · rename_i hinitialized
    rw [if_pos hinitialized] at hreach
    obtain ⟨entry, hread, hcross⟩ := Option.bind_eq_some_iff.1 hreach
    exact Option.bind_eq_some_iff.2 ⟨entry, readV3Tick_extends h hread, hcross⟩
  · rename_i hinitialized
    rwa [if_neg hinitialized] at hreach

theorem land_extends (h : db.Extends db') {hop : Hop} {landed : BitVec 128 × Int}
    (hland : land math keccak db pool zeroForOne w hop = some landed) :
    land math keccak db' pool zeroForOne w hop = some landed := by
  unfold land at hland ⊢
  split
  · rename_i hreached
    rw [if_pos hreached] at hland
    obtain ⟨liq, hliq, hlanded⟩ := Option.map_eq_some_iff.1 hland
    exact Option.map_eq_some_iff.2 ⟨liq, reachTick_extends h hliq, hlanded⟩
  · rename_i hreached
    rwa [if_neg hreached] at hland

/-- **A step** whose bitmap word is loaded stays the same when more is loaded. -/
theorem walkStep_extends (h : db.Extends db')
    (hloaded : WordLoaded keccak db pool zeroForOne tickSpacing w)
    (hstep : walkStep math keccak db pool zeroForOne fee tickSpacing w = some w') :
    walkStep math keccak db' pool zeroForOne fee tickSpacing w = some w' := by
  rw [walkStep_eq_some] at hstep ⊢
  obtain ⟨hop, hhop, haccount, hland, hprice⟩ := hstep
  refine ⟨hop, ?_, haccount, land_extends h hland, hprice⟩
  rw [hop_eq_some] at hhop ⊢
  rwa [findNextInitializedTick_extends h hloaded]

/-- **A walk** whose bitmap words are loaded stays the same when more is loaded. -/
theorem walk_extends (h : db.Extends db') {n : Nat}
    (hloaded : EveryStep math keccak db pool zeroForOne fee tickSpacing
      (WordLoaded keccak db pool zeroForOne tickSpacing) n w)
    (hwalk : walk math keccak db pool zeroForOne fee tickSpacing n w = some w') :
    walk math keccak db' pool zeroForOne fee tickSpacing n w = some w' := by
  induction n generalizing w with
  | zero => exact hwalk
  | succ n ih =>
    rw [walk_succ] at hwalk ⊢
    split
    · rename_i hgoes
      rw [if_pos hgoes] at hwalk
      obtain ⟨next, hstep, hwalk⟩ := Option.bind_eq_some_iff.1 hwalk
      obtain ⟨hword, hrest⟩ := hloaded hgoes next hstep
      exact Option.bind_eq_some_iff.2
        ⟨next, walkStep_extends h hword hstep, ih hrest hwalk⟩
    · rename_i hstops
      rwa [if_neg hstops] at hwalk

theorem startWalk_extends (h : db.Extends db') {amountIn : U256}
    (hloaded : LiquidityLoaded db.toStateDb pool)
    (hstart : startWalk db pool amountIn = some w) : startWalk db' pool amountIn = some w := by
  unfold startWalk at hstart ⊢
  obtain ⟨slot0, hslot0, hstart⟩ := Option.bind_eq_some_iff.1 hstart
  refine Option.bind_eq_some_iff.2 ⟨slot0, readV3Slot0_extends h hslot0, ?_⟩
  rwa [readV3Liquidity_extends h hloaded]

/-! ## A larger database that answers differently -/

theorem extends_updateSlot {key : U256} (hmissing : db.slot pool key = none) (value : U256) :
    db.Extends (db.updateSlot pool key value) where
  slot {a k v} hread := by
    refine (slot_updateSlot ..).trans ?_
    rw [if_neg ?_, hread]
    rintro ⟨rfl, rfl⟩
    rw [hmissing] at hread
    cases hread
  pancakeV3Pools := rfl

/-- Where the slots do not decide, one that is missing can be loaded with another liquidity. -/
theorem exists_liquidity_ne {liquidity : BitVec 128}
    (hread : db.readV3Liquidity pool = some liquidity)
    (hloaded : ¬ LiquidityLoaded db.toStateDb pool) :
    ∃ db', db.Extends db' ∧ db'.readV3Liquidity pool ≠ db.readV3Liquidity pool := by
  obtain ⟨hfirst, hboth⟩ := not_or.1 hloaded
  cases hslot : db.low128 pool v3LiquiditySlot with
  | none =>
    obtain ⟨x, hx, hne⟩ : ∃ x : BitVec 128, x ≠ 0 ∧ x ≠ liquidity := by
      by_cases hone : liquidity = 1
      · exact ⟨2, by decide, by rw [hone]; decide⟩
      · exact ⟨1, by decide, Ne.symm hone⟩
    refine ⟨db.updateSlot pool v3LiquiditySlot (x.setWidth 256),
      extends_updateSlot (Option.map_eq_none_iff.1 hslot) _, ?_⟩
    rw [hread]
    refine fun heq => hne (Option.some.inj ?_)
    rw [← heq]
    exact ((readV3Liquidity_set_first ..).trans (pick_of_positive ⟨x, rfl, hx⟩)).symm
  | some x =>
    obtain rfl : x = 0 := not_ne_iff.1 fun hne => hfirst ⟨x, hslot, hne⟩
    have hsecond : db.low128 pool v3LiquiditySlotPancake = none := by
      refine Option.not_isSome_iff_eq_none.1 fun hsome => hboth ⟨?_, hsome⟩
      rw [hslot]
      rfl
    have hzero : ¬ Positive (some (0 : BitVec 128)) := fun ⟨_, hx, hne⟩ =>
      hne (Option.some.inj hx).symm
    refine ⟨db.updateSlot pool v3LiquiditySlotPancake ((1 : BitVec 128).setWidth 256),
      extends_updateSlot (Option.map_eq_none_iff.1 hsecond) _, ?_⟩
    have hone : (db.updateSlot pool v3LiquiditySlotPancake
        ((1 : BitVec 128).setWidth 256)).readV3Liquidity pool = some 1 := by
      refine (readV3Liquidity_set_second ..).trans ?_
      rw [hslot, pick_of_second_positive hzero ⟨1, rfl, by decide⟩]
    rw [readV3Liquidity_eq_pick db.toStateDb, hslot, hsecond,
      pick_of_not_positive hzero fun ⟨_, hx, _⟩ => by cases hx]
    refine fun heq => absurd (Option.some.inj (hone.symm.trans heq)) (by decide)

/-- A bitmap word that shows every tick is not read as one that shows none. -/
theorem scanWord_full_ne (spacing index : Int) :
    scanWord zeroForOne spacing index (BitVec.allOnes 256) ≠
      scanWord zeroForOne spacing index 0 := by
  have hbit : bitPos index < 256 := by
    rw [bitPos_eq]
    omega
  have hmask : searchMask zeroForOne (bitPos index) ≠ 0 := by
    intro hzero
    have hset : (searchMask zeroForOne (bitPos index)).getLsbD (bitPos index) = true := by
      cases zeroForOne with
      | true => rw [getLsbD_searchMask_true (by omega), decide_eq_true_eq]
      | false => rw [getLsbD_searchMask_false hbit, decide_eq_true_eq]
    rw [hzero] at hset
    exact absurd hset (by simp)
  have hfull : (BitVec.allOnes 256 &&& searchMask zeroForOne (bitPos index)) ≠ 0 := by
    rw [BitVec.allOnes_and]
    exact hmask
  have hflag (bitmap : U256) : (scanWord zeroForOne spacing index bitmap).2 = true ↔
      bitmap &&& searchMask zeroForOne (bitPos index) ≠ 0 := by
    unfold scanWord
    dsimp only
    split <;> split <;> rename_i hset
    · exact iff_of_true rfl hset
    · exact iff_of_false Bool.false_ne_true hset
    · exact iff_of_true rfl hset
    · exact iff_of_false Bool.false_ne_true hset
  intro heq
  have hzero := (hflag 0).1 (heq ▸ (hflag _).2 hfull)
  exact hzero BitVec.zero_and

/-- A bitmap word that is missing can be loaded so that the search ends elsewhere. -/
theorem exists_search_ne (hmissing : ¬ WordLoaded keccak db pool zeroForOne tickSpacing w) :
    ∃ db', db.Extends db' ∧ findNextInitializedTick keccak db' pool w.tick tickSpacing zeroForOne ≠
      findNextInitializedTick keccak db pool w.tick tickSpacing zeroForOne := by
  unfold WordLoaded at hmissing
  obtain ⟨compressed, hcompress, hnone⟩ : ∃ compressed, compress w.tick tickSpacing =
      some compressed ∧ db.readV3TickBitmap keccak pool
        (wordPos (searchFrom zeroForOne compressed)) = none := by
    simpa [Option.isSome_iff_ne_none] using hmissing
  let key := v3TickBitmapSlotBase keccak (wordPos (searchFrom zeroForOne compressed))
    (if pool ∈ db.pancakeV3Pools then 7 else 6)
  refine ⟨db.updateSlot pool key (BitVec.allOnes 256), extends_updateSlot hnone _, ?_⟩
  have hword : (db.updateSlot pool key (BitVec.allOnes 256)).readV3TickBitmap keccak pool
      (wordPos (searchFrom zeroForOne compressed)) = some (BitVec.allOnes 256) :=
    (slot_updateSlot ..).trans (if_pos ⟨rfl, rfl⟩)
  unfold findNextInitializedTick
  rw [hcompress, Option.map_some, Option.map_some, readWordOf, readWordOf, hword, hnone]
  exact fun heq => scanWord_full_ne _ _ (Option.some.inj heq)

end V3

open V3

section

variable (math : V3Math) (keccak : Keccak) (db : BlockStateDb) (pool : Address) (amountIn : U256)
  (zeroForOne : Bool) (fee : UInt32) (tickSpacing : Int32)

/-- What a quote reads is loaded: there is nothing to walk, or the liquidity and every bitmap word
of the walk. -/
def QuoteLoaded : Prop :=
  amountIn = 0 ∨ ∀ w, startWalk db pool amountIn = some w →
    LiquidityLoaded db.toStateDb pool ∧
      EveryStep math keccak db pool zeroForOne fee tickSpacing.toInt
        (WordLoaded keccak db pool zeroForOne tickSpacing.toInt) maxTickIterations w

/-- A quote does not change when more is loaded, if what it reads is loaded. -/
theorem QuoteLoaded.extends {math keccak db pool amountIn zeroForOne fee tickSpacing}
    (hloaded : QuoteLoaded math keccak db pool amountIn zeroForOne fee tickSpacing)
    {db' : BlockStateDb} (hextends : db.Extends db') {out : U256}
    (hquote : getAmountOutV3 math keccak db pool amountIn zeroForOne fee tickSpacing = some out) :
    getAmountOutV3 math keccak db' pool amountIn zeroForOne fee tickSpacing = some out := by
  unfold getAmountOutV3 at hquote ⊢
  split
  · rename_i hzero
    rwa [if_pos hzero] at hquote
  · rename_i hne
    rw [if_neg hne] at hquote
    obtain ⟨start, hstart, hquote⟩ := Option.bind_eq_some_iff.1 hquote
    obtain ⟨last, hwalk, hquote⟩ := Option.bind_eq_some_iff.1 hquote
    obtain ⟨hliquidity, hwords⟩ := hloaded.resolve_left hne start hstart
    refine Option.bind_eq_some_iff.2 ⟨start, startWalk_extends hextends hliquidity hstart, ?_⟩
    exact Option.bind_eq_some_iff.2 ⟨last, walk_extends hextends hwords hwalk, hquote⟩

/-- **What a quote depends on.** If what it reads is loaded, it does not change when more is. If
not, there is a larger database that answers one of its reads differently: the liquidity it starts
with, or the search for the next tick before one of its steps. -/
theorem getAmountOutV3_extends :
    (QuoteLoaded math keccak db pool amountIn zeroForOne fee tickSpacing →
      ∀ db', db.Extends db' → ∀ out,
        getAmountOutV3 math keccak db pool amountIn zeroForOne fee tickSpacing = some out →
          getAmountOutV3 math keccak db' pool amountIn zeroForOne fee tickSpacing = some out) ∧
    (¬ QuoteLoaded math keccak db pool amountIn zeroForOne fee tickSpacing →
      ∃ db', db.Extends db' ∧ ∃ w, startWalk db pool amountIn = some w ∧
        (db'.readV3Liquidity pool ≠ db.readV3Liquidity pool ∨
          SomeStep math keccak db pool zeroForOne fee tickSpacing.toInt (fun w =>
            findNextInitializedTick keccak db' pool w.tick tickSpacing.toInt zeroForOne ≠
              findNextInitializedTick keccak db pool w.tick tickSpacing.toInt zeroForOne)
            maxTickIterations w)) := by
  refine ⟨fun hloaded db' hextends out hquote => hloaded.extends hextends hquote, fun hnot => ?_⟩
  obtain ⟨-, hreads⟩ := not_or.1 hnot
  obtain ⟨w, hstart, hmissing⟩ : ∃ w, startWalk db pool amountIn = some w ∧
      ¬ (LiquidityLoaded db.toStateDb pool ∧
        EveryStep math keccak db pool zeroForOne fee tickSpacing.toInt
          (WordLoaded keccak db pool zeroForOne tickSpacing.toInt) maxTickIterations w) := by
    simpa using hreads
  by_cases hliquidity : LiquidityLoaded db.toStateDb pool
  · have hsome := not_everyStep.1 fun hwords => hmissing ⟨hliquidity, hwords⟩
    obtain ⟨db', hextends, hsearch⟩ := hsome.exists (Q := fun db' w =>
      findNextInitializedTick keccak db' pool w.tick tickSpacing.toInt zeroForOne ≠
        findNextInitializedTick keccak db pool w.tick tickSpacing.toInt zeroForOne)
      fun w hw => exists_search_ne hw
    exact ⟨db', hextends, w, hstart, .inr hsearch⟩
  · obtain ⟨slot0, -, hrest⟩ := Option.bind_eq_some_iff.1 hstart
    obtain ⟨liquidity, hread⟩ : ∃ liquidity, db.readV3Liquidity pool = some liquidity := by
      dsimp only at hrest
      split at hrest
      · cases hrest
      · obtain ⟨liquidity, hread, -⟩ := Option.bind_eq_some_iff.1 hrest
        exact ⟨liquidity, hread⟩
    obtain ⟨db', hextends, hne⟩ := exists_liquidity_ne hread hliquidity
    exact ⟨db', hextends, w, hstart, .inl hne⟩

end

/-! ### A word that is not loaded -/

namespace V3

/-- The mapping entries side by side, from slot 1000 on. -/
def spreadKeccak (bytes : Lib.Bytes) : U256 :=
  BitVec.ofNat 256
    (1000 + 8 * Lib.Bytes.toNat ((bytes.drop 28).take 4) + Lib.Bytes.toNat (bytes.drop 32))

/-- The price of tick 0. -/
def priceZero : U256 := 79228162514264337593543950336

/-- The price of tick 1. -/
def priceOne : U256 := 79232123823359799118286999568

/-- The price of tick 255, the last of the word of tick 0. -/
def priceWordEnd : U256 := 80244737654238127488718973609

/-- The price when 100 have been sold at a liquidity of 1000000. -/
def priceSold : U256 := 79236006102353249762965711187

/-- What the functions give for 100 that are sold at tick 0, with a fee of 3000: all are sold
before tick 255, and half of them at tick 1. -/
def saleMath : V3Math where
  getSqrtRatioAtTick tick :=
    if tick = 1 then some priceOne else if tick = 255 then some priceWordEnd else none
  getTickAtSqrtRatio price := if price = priceSold then some 1 else none
  computeSwapStep price target liq amount fee :=
    if price = priceZero ∧ liq = 1000000 ∧ amount = 100 ∧ fee = 3000 then
      if target = priceWordEnd then some (priceSold, 99, 98, 1)
      else if target = priceOne then some (priceOne, 50, 49, 1)
      else none
    else none

/-- Pool 9 at tick 0, with a liquidity of 1000000 and no word of its bitmap. -/
def bareDb : BlockStateDb where
  toStateDb := (StateDb.empty.updateSlot 9 0 priceZero).updateSlot 9 4 1000000
  trackedPools := ∅
  pancakeV3Pools := ∅

/-- With its bitmap word 0. -/
def wordDb (bits : U256) : BlockStateDb := bareDb.updateSlot 9 1006 bits

/-- When word 0 is loaded, more that is loaded beside it does not change the quote. -/
theorem getAmountOutV3_extends_wordDb :
    getAmountOutV3 saleMath spreadKeccak ((wordDb 0).updateSlot 9 1013 1) 9 100 false 3000 1 =
      some 98 := by
  refine (getAmountOutV3_extends saleMath spreadKeccak (wordDb 0) 9 100 false 3000 1).1
    (.inr fun w hstart => ?_) _ (extends_updateSlot (by decide) 1) 98 (by decide +kernel)
  have hbegin : startWalk (wordDb 0) 9 100 = some ⟨priceZero, 1000000, 100, 0, 0⟩ := by decide
  cases hbegin.symm.trans hstart
  refine ⟨.inl ⟨1000000, by decide, by decide⟩,
    fun _ w' hstep => ⟨fun compressed hcompress => ?_, ?_⟩⟩
  · cases hcompress
    decide
  · -- The walk is over after one step, which reads word 0.
    have hsold : walkStep saleMath spreadKeccak (wordDb 0) 9 false 3000 1
        ⟨priceZero, 1000000, 100, 0, 0⟩ = some ⟨priceSold, 1000000, 0, 98, 1⟩ := by
      decide +kernel
    cases hsold.symm.trans hstep
    exact fun hgoes => absurd rfl hgoes.1

/-- The quote takes the missing word for one without ticks. When it is loaded with tick 1 set,
there is no quote. -/
theorem missing_word_quoted :
    bareDb.Extends (wordDb 2) ∧
      getAmountOutV3 saleMath spreadKeccak bareDb 9 100 false 3000 1 = some 98 ∧
        getAmountOutV3 saleMath spreadKeccak (wordDb 2) 9 100 false 3000 1 = none :=
  ⟨extends_updateSlot (by decide) 2, by decide +kernel, by decide +kernel⟩

end V3

end ArbBot
