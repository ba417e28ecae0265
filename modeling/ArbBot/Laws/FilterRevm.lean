import ArbBot.FilterRevm
import ArbBot.Laws.Calculation.V2

/-!
# No free round trip

Selling an amount to a constant-product pool and buying back with the output returns at most the
amount on the reserves the sale leaves, which is how the filter swaps back, and strictly less on
the reserves before it, which is what two quotes of the contract amount to.
-/

namespace ArbBot

open Lib
open Lib.ConstantProduct (swapOut)

variable {reserve0 reserve1 amount mid back : U256} {factor : UInt64}

/-! ## The swap back -/

/-- **On the updated reserves** a sale comes back with at most the amount. -/
theorem getAmountOutV2_back (h0 : PairReserve reserve0) (h1 : PairReserve reserve1)
    (hamount : amount.toNat < 2 ^ 112) (hfactor : factor.toNat ≤ 10000)
    (hmid : getAmountOutV2 amount reserve0 reserve1 factor = mid) :
    mid < reserve1 ∧
      getAmountOutV2 mid (reserve1 - mid) (reserve0 + amount) factor ≤ amount := by
  have hlt : mid < reserve1 :=
    hmid ▸ getAmountOutV2_lt_of_fits h0.ne_zero h1.ne_zero
      (.of_112 h0.ne_zero hfactor hamount h0.lt h1.lt)
  refine ⟨hlt, ?_⟩
  have hvalue := hmid ▸ toNat_getAmountOutV2_of_pair h0 h1 hfactor hamount
  have hsum := toNat_add_of_112 h0.lt hamount
  have hrest := toNat_sub_of_lt hlt
  have h0pos := h0.pos
  have h0lt := h0.lt
  have h1lt := h1.lt
  have hltNat := BitVec.lt_def.mp hlt
  have hrestNonzero : reserve1 - mid ≠ 0 := by
    intro hzero
    rw [hzero] at hrest
    simp at hrest
    omega
  have hsumNonzero : reserve0 + amount ≠ 0 := by
    intro hzero
    rw [hzero] at hsum
    simp at hsum
    omega
  rw [BitVec.le_def, toNat_getAmountOutV2_of_113 hrestNonzero hsumNonzero hfactor (by omega)
    (by omega) (by omega), hrest, hsum, hvalue]
  exact ConstantProduct.swapOut_back hfactor h0.pos (by decide) h1.pos

/-- **On the old reserves** it comes back with less. -/
theorem getAmountOutV2_back_old (h0 : PairReserve reserve0) (h1 : PairReserve reserve1)
    (hpos : amount ≠ 0) (hamount : amount.toNat < 2 ^ 112) (hfactor : factor.toNat ≤ 10000) :
    getAmountOutV2 (getAmountOutV2 amount reserve0 reserve1 factor) reserve1 reserve0 factor <
      amount := by
  have hlt := getAmountOutV2_lt_of_fits h0.ne_zero h1.ne_zero
    (.of_112 h0.ne_zero hfactor hamount h0.lt h1.lt)
  have h1lt := h1.lt
  rw [BitVec.lt_def] at hlt
  rw [BitVec.lt_def, toNat_getAmountOutV2_of_pair h1 h0 hfactor (by omega),
    toNat_getAmountOutV2_of_pair h0 h1 hfactor hamount]
  exact ConstantProduct.swapOut_back_old hfactor h0.pos (by decide) h1.pos (toNat_pos hpos)

/-! ## The filter -/

theorem toU64_of_le {word : U256} {bound : Nat} (h : word.toNat ≤ bound) (hbound : bound < 2 ^ 64) :
    ∃ small : UInt64, toU64 word = some small ∧ small.toNat ≤ bound := by
  refine ⟨.ofNat word.toNat, if_pos (by omega), ?_⟩
  rw [UInt64.toNat_ofNat_of_lt' (show word.toNat < 2 ^ 64 by omega)]
  exact h

/-- The loss is a share of the amount, in hundredths of a percent. -/
theorem toNat_loss_le (hamount : amount.toNat < 2 ^ 112) :
    ((amount - back) * 10000 / amount).toNat ≤ 10000 ∨ amount < back := by
  by_cases hle : amount < back
  · exact .inr hle
  left
  have hback : back ≤ amount := BitVec.not_lt.mp hle
  have h10000 : (10000 : U256).toNat = 10000 := rfl
  have hloss : (amount - back).toNat ≤ amount.toNat := by
    rw [BitVec.toNat_sub_of_le hback]
    exact Nat.sub_le _ _
  have hscaled : ((amount - back) * 10000).toNat = (amount - back).toNat * 10000 := by
    rw [BitVec.toNat_mul, h10000, Nat.mod_eq_of_lt (by omega)]
  rw [BitVec.toNat_udiv, hscaled]
  apply Nat.div_le_of_le_mul
  exact Nat.mul_le_mul_right _ hloss

/-- The filter ends without a panic, and the loss it reports is at most the whole. -/
theorem roundtrip_lossBps (reserve0 reserve1 : U256) (factor maxLossBps : UInt64)
    (hamount : amount.toNat < 2 ^ 112) :
    ∃ result loss, roundtrip reserve0 reserve1 factor amount maxLossBps = some result ∧
      result.lossBps = some loss ∧ loss.toNat ≤ 10000 := by
  unfold roundtrip
  by_cases hreserves : reserve0 = 0 ∨ reserve1 = 0
  · exact ⟨.toxic 10000, 10000, if_pos hreserves, rfl, by decide⟩
  rw [if_neg hreserves]
  by_cases hmid : getAmountOutV2 amount reserve0 reserve1 factor = 0
  · exact ⟨.toxic 10000, 10000, if_pos hmid, rfl, by decide⟩
  simp only [hmid, if_false]
  generalize getAmountOutV2 _ (reserve1 - _) (reserve0 + amount) factor = back
  by_cases hback : back = 0
  · exact ⟨.toxic 10000, 10000, if_pos hback, rfl, by decide⟩
  rw [if_neg hback]
  by_cases hgain : amount ≤ back
  · exact ⟨.safe 0, 0, if_pos hgain, rfl, by decide⟩
  rw [if_neg hgain]
  have hle : ((amount - back) * 10000 / amount).toNat ≤ 10000 := by
    apply (toNat_loss_le hamount).resolve_right
    intro hlt
    exact hgain (BitVec.le_of_lt hlt)
  obtain ⟨loss, hloss, hbound⟩ := toU64_of_le hle (by decide)
  simp only [hloss, Option.bind_eq_bind, Option.bind_some]
  by_cases hmax : maxLossBps < loss
  · exact ⟨.toxic loss, loss, if_pos hmax, rfl, hbound⟩
  · exact ⟨.safe loss, loss, if_neg hmax, rfl, hbound⟩

/-! ## The contract -/

namespace FlashQuoter

variable {view : PoolView} {pool : Address} {r0 r1 : BitVec 112} {fee : UInt32}

/-- The reserves a quote reads, in the order of the swap. -/
theorem quoteV2_of_reserves (hview : view.getReserves pool = some (r0, r1)) (zeroForOne : Bool) :
    quoteV2 view pool amount zeroForOne fee =
      constantProduct amount ((if zeroForOne then r0 else r1).setWidth 256)
        ((if zeroForOne then r1 else r0).setWidth 256) fee := by
  simp [quoteV2, hview]

theorem pairReserve_setWidth {r : BitVec 112} (h : r ≠ 0) : PairReserve (r.setWidth 256) where
  ne_zero := by
    intro hzero
    apply h
    apply BitVec.eq_of_toNat_eq
    have hwide := congrArg BitVec.toNat hzero
    rw [BitVec.toNat_setWidth_of_le (by decide)] at hwide
    exact hwide
  lt := by
    rw [BitVec.toNat_setWidth_of_le (by decide)]
    exact r.isLt

/-- On positive reserves the quoter has a value, and it is the estimator's. -/
theorem constantProduct_of_pair (h0 : PairReserve reserve0) (h1 : PairReserve reserve1)
    (hamount : amount.toNat < 2 ^ 112) (hfee : fee.toNat ≤ 10000)
    (hfactor : factor.toNat = 10000 - fee.toNat) :
    constantProduct amount reserve0 reserve1 fee =
      some (getAmountOutV2 amount reserve0 reserve1 factor) := by
  have hfits : ProductFits factor.toNat amount reserve0 reserve1 :=
    .of_112 h0.ne_zero (by omega) hamount h0.lt h1.lt
  apply constantProduct_eq_some.mpr
  refine ⟨hfee, hfactor ▸ hfits, ?_⟩
  rw [toNat_getAmountOutV2 h0.ne_zero h1.ne_zero hfits, hfactor]

/-- **Two quotes in opposite directions lose**, whichever direction comes first. -/
theorem quoteV2_back (hview : view.getReserves pool = some (r0, r1)) (h0 : r0 ≠ 0) (h1 : r1 ≠ 0)
    (hpos : amount ≠ 0) (hamount : amount.toNat < 2 ^ 112) (hfee : fee.toNat ≤ 10000)
    (zeroForOne : Bool) :
    ∃ mid back, quoteV2 view pool amount zeroForOne fee = some mid ∧
      quoteV2 view pool mid (!zeroForOne) fee = some back ∧ back < amount := by
  have hfactor : (UInt64.ofNat (10000 - fee.toNat)).toNat = 10000 - fee.toNat :=
    UInt64.toNat_ofNat_of_lt' (show 10000 - fee.toNat < 2 ^ 64 by omega)
  have hin : PairReserve ((if zeroForOne then r0 else r1).setWidth 256) :=
    pairReserve_setWidth (by cases zeroForOne <;> assumption)
  have hout : PairReserve ((if zeroForOne then r1 else r0).setWidth 256) :=
    pairReserve_setWidth (by cases zeroForOne <;> assumption)
  have hswap : (if !zeroForOne then r0 else r1) = (if zeroForOne then r1 else r0) ∧
      (if !zeroForOne then r1 else r0) = (if zeroForOne then r0 else r1) := by
    cases zeroForOne <;> simp
  have hlt := getAmountOutV2_lt_of_fits hin.ne_zero hout.ne_zero
    (.of_112 hin.ne_zero (hfactor ▸ Nat.sub_le _ _) hamount hin.lt hout.lt)
  have hmidlt := hout.lt
  rw [BitVec.lt_def] at hlt
  have hback := getAmountOutV2_back_old hin hout hpos hamount (hfactor ▸ Nat.sub_le _ _)
  generalize hmid : getAmountOutV2 amount _ _ (.ofNat (10000 - fee.toNat)) = mid at hback hlt
  refine ⟨mid, _, ?_, ?_, hback⟩
  · rw [quoteV2_of_reserves hview, ← hmid]
    exact constantProduct_of_pair hin hout hamount hfee hfactor
  · rw [quoteV2_of_reserves hview, hswap.1, hswap.2]
    exact constantProduct_of_pair hout hin (by omega) hfee hfactor

end FlashQuoter

/-! ## Both conventions -/

/-- **No free round trip through a V2 pool**: swapping back on the updated reserves returns at
most the amount, the subtraction there does not wrap and the filter that does it reports at most
the whole as loss; swapping back on the unchanged reserves, as two quotes of the contract do,
returns less. -/
theorem noFreeRoundTrip (h0 : PairReserve reserve0) (h1 : PairReserve reserve1)
    (hpos : amount ≠ 0) (hamount : amount.toNat < 2 ^ 112) (hfactor : factor.toNat ≤ 10000) :
    (∀ mid, getAmountOutV2 amount reserve0 reserve1 factor = mid →
      mid < reserve1 ∧
        getAmountOutV2 mid (reserve1 - mid) (reserve0 + amount) factor ≤ amount ∧
        getAmountOutV2 mid reserve1 reserve0 factor < amount) ∧
    (∀ (stateDb : StateDb) (pool : Address) (maxLossBps : UInt64),
      stateDb.readV2Reserves pool = some (reserve0, reserve1) →
      ∃ result loss, validateV2Roundtrip stateDb pool factor amount maxLossBps = some result ∧
        result.lossBps = some loss ∧ loss.toNat ≤ 10000) ∧
    ∀ (view : FlashQuoter.PoolView) (pool : Address) (zeroForOne : Bool) (fee : UInt32)
      (r0 r1 : BitVec 112),
      view.getReserves pool = some (r0, r1) → r0.setWidth 256 = reserve0 →
      r1.setWidth 256 = reserve1 → fee.toNat = 10000 - factor.toNat →
      ∃ mid back, FlashQuoter.quoteV2 view pool amount zeroForOne fee = some mid ∧
        FlashQuoter.quoteV2 view pool mid (!zeroForOne) fee = some back ∧ back < amount := by
  refine ⟨?_, ?_, ?_⟩
  · intro mid hmid
    obtain ⟨hlt, hback⟩ := getAmountOutV2_back h0 h1 hamount hfactor hmid
    exact ⟨hlt, hback, hmid ▸ getAmountOutV2_back_old h0 h1 hpos hamount hfactor⟩
  · intro stateDb pool maxLossBps hread
    unfold validateV2Roundtrip
    rw [hread]
    exact roundtrip_lossBps _ _ _ _ hamount
  · intro view pool zeroForOne fee r0 r1 hview hr0 hr1 hfee
    have hr0pos : r0 ≠ 0 := by
      intro hzero
      apply h0.ne_zero
      rw [← hr0, hzero]
      rfl
    have hr1pos : r1 ≠ 0 := by
      intro hzero
      apply h1.ne_zero
      rw [← hr1, hzero]
      rfl
    exact FlashQuoter.quoteV2_back hview hr0pos hr1pos hpos hamount (by omega) zeroForOne

theorem noFreeRoundTrip_example :
    getAmountOutV2 (getAmountOutV2 10 1000 2000 9970) 2000 1000 9970 < 10 :=
  ((noFreeRoundTrip ⟨by decide, by decide⟩
    ⟨by decide, by decide⟩ (by decide) (by decide) (by decide)).1 _ rfl).2.2

end ArbBot
