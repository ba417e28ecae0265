import ArbBot.Laws.Calculation.V3.Loaded
import Mathlib.Data.Int.Init

/-!
# The liquidity along a walk

Where a walk crosses an initialised tick, the liquidity goes through a signed 128-bit word, in
which the checked operation is done, and back. The word after it is the exact value modulo
`2 ^ 128`. The check refuses values that leave the signed word, and all of those are liquidities
beyond `2 ^ 127` that fit the unsigned one: an exact value that is negative, or that leaves the
unsigned word, passes the check and wraps (`isSome_crossTick_of_out`). So the bookkeeping is
exact along a walk exactly where every tick that is crossed leaves the liquidity in range
(`keepsLiquidity_iff`).
-/

namespace ArbBot

namespace V3

open Lib

variable (math : V3Math) (keccak : Keccak) (db : BlockStateDb) (pool : Address)
  (zeroForOne : Bool) (fee : UInt32) (tickSpacing : Int)

/-- The liquidity beyond a tick, as an integer. -/
def liquidityBeyond (liq liquidityNet : BitVec 128) : Int :=
  if zeroForOne then liq.toNat - liquidityNet.toInt else liq.toNat + liquidityNet.toInt

/-- A liquidity of 128 bits. -/
def InRange (liquidity : Int) : Prop := 0 ≤ liquidity ∧ liquidity < 2 ^ 128

/-- The next step crosses an initialised tick with a net liquidity. -/
structure Crosses (w : Walk) (h : Hop) (liquidityNet : BitVec 128) : Prop where
  hop : hop math keccak db pool zeroForOne fee tickSpacing w = some h
  account : (account w h).isSome
  reached : h.newSqrtPrice = h.sqrtPriceNext
  initialized : h.initialized = true
  entry : ∃ gross, db.readV3Tick keccak pool (BitVec.ofInt 32 h.nextTick) =
    some (gross, liquidityNet)

/-- A property of the states a walk comes to while its loop goes on, with so many iterations
left. -/
def Along (P : Walk → Prop) : Nat → Walk → Prop
  | 0, _ => True
  | n + 1, w => w.amountRemaining ≠ 0 ∧ 0 < w.liq →
      P w ∧ ∀ w', walkStep math keccak db pool zeroForOne fee tickSpacing w = some w' →
        Along P n w'

/-- A tick that is crossed next leaves the liquidity in range. -/
def CrossesInRange (w : Walk) : Prop :=
  ∀ h net, Crosses math keccak db pool zeroForOne fee tickSpacing w h net →
    InRange (liquidityBeyond zeroForOne w.liq net)

/-- Behind a tick that is crossed next the liquidity is the exact one, and if that is not in range
there is no quote. -/
def CrossesExactly (quote : Option U256) (w : Walk) : Prop :=
  ∀ h net, Crosses math keccak db pool zeroForOne fee tickSpacing w h net →
    (∀ w', walkStep math keccak db pool zeroForOne fee tickSpacing w = some w' →
      (w'.liq.toNat : Int) = liquidityBeyond zeroForOne w.liq net) ∧
    (¬ InRange (liquidityBeyond zeroForOne w.liq net) → quote = none)

variable {math keccak db pool zeroForOne fee tickSpacing}

theorem Along.congr {P Q : Walk → Prop} (h : ∀ w, P w ↔ Q w) : ∀ n w,
    Along math keccak db pool zeroForOne fee tickSpacing P n w ↔
      Along math keccak db pool zeroForOne fee tickSpacing Q n w
  | 0, _ => Iff.rfl
  | n + 1, w => by
    simp only [Along, h w, Along.congr h n]

/-! ## Crossing a tick -/

/-- A word as a signed and as an unsigned number. -/
theorem toInt_cases (x : BitVec 128) : (x.toInt = x.toNat ∧ (x.toNat : Int) < 2 ^ 127) ∨
    (x.toInt = x.toNat - 2 ^ 128 ∧ 2 ^ 127 ≤ (x.toNat : Int)) := by
  have hlt := x.isLt
  rw [BitVec.toInt_eq_toNat_cond]
  split <;> omega

/-- The liquidity beyond a tick, where it is in range. -/
theorem toNat_crossTick {liq net liq' : BitVec 128}
    (h : crossTick zeroForOne liq net = some liq')
    (hrange : InRange (liquidityBeyond zeroForOne liq net)) :
    (liq'.toNat : Int) = liquidityBeyond zeroForOne liq net := by
  unfold crossTick at h
  obtain ⟨signed, hsigned, rfl⟩ := Option.map_eq_some_iff.mp h
  obtain ⟨hvalue, -, -⟩ := checkedInt_eq_some.mp hsigned
  obtain ⟨hlow, hhigh⟩ := hrange
  have hliq := toInt_cases liq
  unfold liquidityBeyond at hlow hhigh ⊢
  rw [BitVec.toNat_ofInt, Int.toNat_of_nonneg (Int.emod_nonneg _ (by decide))]
  cases zeroForOne <;> simp only [Bool.false_eq_true, if_true, if_false] at hvalue hlow hhigh ⊢ <;>
    omega

/-- The check lets every liquidity pass that is out of range. -/
theorem isSome_crossTick_of_out {liq net : BitVec 128}
    (hout : ¬ InRange (liquidityBeyond zeroForOne liq net)) :
    ∃ liq', crossTick zeroForOne liq net = some liq' := by
  have hliq := toInt_cases liq
  have hnet := toInt_cases net
  have hltLiq := liq.isLt
  have hltNet := net.isLt
  unfold InRange liquidityBeyond at hout
  unfold crossTick checkedInt
  cases zeroForOne <;> simp only [Bool.false_eq_true, if_true, if_false] at hout ⊢ <;>
    rw [if_pos (by omega)] <;> exact ⟨_, rfl⟩

variable {w w' : Walk} {h : Hop} {net : BitVec 128}

theorem Crosses.reachTick (hcross : Crosses math keccak db pool zeroForOne fee tickSpacing w h net) :
    reachTick keccak db pool zeroForOne w h = crossTick zeroForOne w.liq net := by
  obtain ⟨gross, hentry⟩ := hcross.entry
  rw [V3.reachTick, if_pos hcross.initialized, hentry]
  rfl

/-- The step that crosses a tick has the liquidity beyond it. -/
theorem Crosses.crossTick_of_step
    (hcross : Crosses math keccak db pool zeroForOne fee tickSpacing w h net)
    (hstep : walkStep math keccak db pool zeroForOne fee tickSpacing w = some w') :
    crossTick zeroForOne w.liq net = some w'.liq := by
  obtain ⟨h', hhop, -, hland, -⟩ := walkStep_eq_some.mp hstep
  obtain rfl : h = h' := Option.some.inj (hcross.hop.symm.trans hhop)
  rw [land, if_pos hcross.reached, hcross.reachTick] at hland
  obtain ⟨liq, hliq, heq⟩ := Option.map_eq_some_iff.mp hland
  rw [hliq, (Prod.mk.inj heq).1]

/-- If the liquidity beyond the tick is computed, the step is. -/
theorem Crosses.exists_step
    (hcross : Crosses math keccak db pool zeroForOne fee tickSpacing w h net) {liq : BitVec 128}
    (hliq : crossTick zeroForOne w.liq net = some liq) :
    ∃ w', walkStep math keccak db pool zeroForOne fee tickSpacing w = some w' := by
  obtain ⟨amounts, haccount⟩ := Option.isSome_iff_exists.mp hcross.account
  have hland : land math keccak db pool zeroForOne w h =
      some (liq, if zeroForOne then h.nextTick - 1 else h.nextTick) := by
    rw [land, if_pos hcross.reached, hcross.reachTick, hliq]
    rfl
  exact ⟨⟨h.newSqrtPrice, liq, amounts.1, amounts.2, _⟩,
    walkStep_eq_some.mpr ⟨h, hcross.hop, haccount, hland, rfl⟩⟩

/-- One state: the bookkeeping of the next step is exact exactly if it stays in range. -/
theorem crossesExactly_iff (quote : Option U256) (w : Walk) :
    CrossesExactly math keccak db pool zeroForOne fee tickSpacing quote w ↔
      CrossesInRange math keccak db pool zeroForOne fee tickSpacing w := by
  constructor
  · intro hexact h net hcross
    by_contra hout
    obtain ⟨liq, hliq⟩ := isSome_crossTick_of_out hout
    obtain ⟨w', hstep⟩ := hcross.exists_step hliq
    have hvalue := (hexact h net hcross).1 w' hstep
    have hlt := w'.liq.isLt
    exact hout (by rw [← hvalue]; constructor <;> omega)
  · intro hrange h net hcross
    exact ⟨fun w' hstep => toNat_crossTick (hcross.crossTick_of_step hstep) (hrange h net hcross),
      fun hout => absurd (hrange h net hcross) hout⟩

end V3

open V3

/-- The liquidity is kept exactly along the walk of a quote. -/
def KeepsLiquidity (math : V3Math) (keccak : Keccak) (db : BlockStateDb) (pool : Address)
    (amountIn : U256) (zeroForOne : Bool) (fee : UInt32) (tickSpacing : Int32) : Prop :=
  ∀ w, startWalk db pool amountIn = some w →
    Along math keccak db pool zeroForOne fee tickSpacing.toInt
      (CrossesExactly math keccak db pool zeroForOne fee tickSpacing.toInt
        (getAmountOutV3 math keccak db pool amountIn zeroForOne fee tickSpacing))
      maxTickIterations w

/-- Every tick that is crossed along the walk of a quote leaves the liquidity in range. -/
def StaysInRange (math : V3Math) (keccak : Keccak) (db : BlockStateDb) (pool : Address)
    (amountIn : U256) (zeroForOne : Bool) (fee : UInt32) (tickSpacing : Int32) : Prop :=
  ∀ w, startWalk db pool amountIn = some w →
    Along math keccak db pool zeroForOne fee tickSpacing.toInt
      (CrossesInRange math keccak db pool zeroForOne fee tickSpacing.toInt) maxTickIterations w

/-- **The liquidity is kept exactly where every crossing stays in range.** -/
theorem keepsLiquidity_iff (math : V3Math) (keccak : Keccak) (db : BlockStateDb) (pool : Address)
    (amountIn : U256) (zeroForOne : Bool) (fee : UInt32) (tickSpacing : Int32) :
    KeepsLiquidity math keccak db pool amountIn zeroForOne fee tickSpacing ↔
      StaysInRange math keccak db pool amountIn zeroForOne fee tickSpacing :=
  forall_congr' fun w => forall_congr' fun _ =>
    Along.congr (crossesExactly_iff _) maxTickIterations w

namespace V3

/-- What the functions give for 100 that are sold at tick 0, with a fee of 3000: half of them at
tick 1, and the rest finds no liquidity behind it worth a token. -/
def staleMath : V3Math where
  getSqrtRatioAtTick tick :=
    if tick = 1 then some priceOne else if tick = 255 then some priceWordEnd else none
  getTickAtSqrtRatio price := if price = priceOne then some 1 else none
  computeSwapStep price target liq amount fee :=
    if price = priceZero ∧ target = priceOne ∧ liq = 1000000 ∧ amount = 100 ∧ fee = 3000 then
      some (priceOne, 50, 49, 1)
    else if price = priceOne ∧ target = priceWordEnd ∧ amount = 49 ∧ fee = 3000 then
      some (priceOne, 0, 0, 49)
    else none

/-- Pool 9 at tick 0 with a liquidity of 1000000, and a tick 1 from an older block that takes
2000000 away. -/
def staleDb : BlockStateDb :=
  (wordDb 2).updateSlot 9 1013 ((0 - 2000000 : U256) <<< 128 ||| 2000000)

end V3

/-- Behind the old tick the liquidity would be negative. It wraps, and there is a quote. -/
theorem not_keepsLiquidity_stale :
    getAmountOutV3 staleMath spreadKeccak staleDb 9 100 false 3000 1 = some 49 ∧
      ¬ KeepsLiquidity staleMath spreadKeccak staleDb 9 100 false 3000 1 := by
  have hquote : getAmountOutV3 staleMath spreadKeccak staleDb 9 100 false 3000 1 = some 49 := by
    decide +kernel
  refine ⟨hquote, fun hkeeps => ?_⟩
  have hstart : startWalk staleDb 9 100 = some ⟨priceZero, 1000000, 100, 0, 0⟩ := by decide
  have hcross : Crosses staleMath spreadKeccak staleDb 9 false 3000 1
      ⟨priceZero, 1000000, 100, 0, 0⟩ ⟨1, true, priceOne, priceOne, 50, 49, 1⟩
      (BitVec.ofInt 128 (-2000000)) :=
    ⟨hop_eq_some.mpr ⟨1, by decide +kernel, by decide, by decide, by decide⟩, by decide, rfl, rfl,
      2000000, by decide +kernel⟩
  have hexact := (hkeeps _ hstart ⟨by decide, by decide⟩).1 _ _ hcross
  rw [hquote] at hexact
  exact absurd (hexact.2 (by unfold InRange; decide)) (by decide)

end ArbBot
