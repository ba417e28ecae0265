import ArbBot.Calculation.V3
import ArbBot.Lib.Word

/-!
# The steps of a walk

What a step of the walk that succeeds has computed.
-/

namespace ArbBot

namespace V3

open Lib

variable {math : V3Math} {keccak : Keccak} {db : BlockStateDb} {pool : Address}
  {zeroForOne : Bool} {fee : UInt32} {tickSpacing : Int} {w w' : Walk} {h : Hop}

theorem walkStep_eq_some :
    walkStep math keccak db pool zeroForOne fee tickSpacing w = some w' ↔
      ∃ h, hop math keccak db pool zeroForOne fee tickSpacing w = some h ∧
        account w h = some (w'.amountRemaining, w'.amountCalculated) ∧
        land math keccak db pool zeroForOne w h = some (w'.liq, w'.tick) ∧
        w'.sqrtPrice = h.newSqrtPrice := by
  unfold walkStep
  simp only [Option.bind_eq_bind, Option.bind_eq_some_iff, Option.some.injEq, Prod.exists]
  constructor
  · rintro ⟨h, hhop, remaining, calculated, haccount, liq, tick, hland, rfl⟩
    exact ⟨h, hhop, haccount, hland, rfl⟩
  · rintro ⟨h, hhop, haccount, hland, hprice⟩
    refine ⟨h, hhop, _, _, haccount, _, _, hland, ?_⟩
    rw [← hprice]

/-- The next price, held back at the limit. -/
def targetOf (zeroForOne : Bool) (sqrtPriceNext : U256) : U256 :=
  if zeroForOne then
    (if sqrtPriceNext < sqrtPriceLimit zeroForOne then sqrtPriceLimit zeroForOne
      else sqrtPriceNext)
  else
    (if sqrtPriceLimit zeroForOne < sqrtPriceNext then sqrtPriceLimit zeroForOne
      else sqrtPriceNext)

theorem hop_eq_some :
    hop math keccak db pool zeroForOne fee tickSpacing w = some h ↔
      ∃ next, findNextInitializedTick keccak db pool w.tick tickSpacing zeroForOne =
          some (next, h.initialized) ∧
        h.nextTick = max minTick (min next maxTick) ∧
        math.getSqrtRatioAtTick h.nextTick = some h.sqrtPriceNext ∧
        math.computeSwapStep w.sqrtPrice (targetOf zeroForOne h.sqrtPriceNext) w.liq
          w.amountRemaining fee =
            some (h.newSqrtPrice, h.amountInStep, h.amountOutStep, h.feeAmount) := by
  unfold hop
  simp only [Option.bind_eq_bind, Option.bind_eq_some_iff, Option.some.injEq, Prod.exists]
  constructor
  · rintro ⟨next, initialized, hfind, sqrtPriceNext, hratio, newPrice, amountIn, amountOut,
      feeAmount, hstep, rfl⟩
    exact ⟨next, hfind, rfl, hratio, hstep⟩
  · rintro ⟨next, hfind, hnext, hratio, hstep⟩
    refine ⟨next, h.initialized, hfind, h.sqrtPriceNext, hnext ▸ hratio, _, _, _, _, hstep, ?_⟩
    rw [← hnext]

/-- The amounts after a step, as numbers. -/
theorem of_account {remaining : Int} {calculated : U256}
    (haccount : account w h = some (remaining, calculated)) :
    remaining = w.amountRemaining - (h.amountInStep.toNat + h.feeAmount.toNat : Nat) ∧
      calculated.toNat = w.amountCalculated.toNat + h.amountOutStep.toNat := by
  unfold account tryI256 at haccount
  simp only [Option.bind_eq_bind, Option.bind_eq_some_iff, Option.some.injEq, Prod.mk.injEq,
    checkedInt_eq_some, checkedAdd_eq_some] at haccount
  obtain ⟨cost, hcost, _, ⟨rfl, -⟩, _, ⟨rfl, -⟩, _, hcalculated, rfl, rfl⟩ := haccount
  exact ⟨by rw [hcost], hcalculated⟩

theorem walk_succ (n : Nat) :
    walk math keccak db pool zeroForOne fee tickSpacing (n + 1) w =
      if w.amountRemaining ≠ 0 ∧ 0 < w.liq then
        (walkStep math keccak db pool zeroForOne fee tickSpacing w).bind
          (walk math keccak db pool zeroForOne fee tickSpacing n)
      else some w := rfl

end V3

end ArbBot
