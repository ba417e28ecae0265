import ArbBot.Contracts.PairMarket
import ArbBot.Laws.Contracts.ConstantProduct

/-!
# Hops through pairs

One hop of the quoter and one completed hop of the bot have the same value: the quoter's formula on
the reserves of the pair. On 112-bit amounts that is the value the estimator computes, and it is of
112 bits again.
-/

namespace ArbBot

open Lib Lib.Prog V2ArbBot
open Lib.ConstantProduct (swapOut_lt)

variable {pairs : Pairs} {m m' : Market} {step : SwapStep} {amount out : U256}

/-! ## Tokens and amounts -/

namespace PairStep

theorem tokenOut_ne (h : PairStep pairs step) : step.tokenOut ≠ step.tokenIn := by
  rcases h.tokens with ⟨hin, hout⟩ | ⟨hin, hout⟩
  · rw [hin, hout]
    exact h.ne.symm
  · rw [hin, hout]
    exact h.ne

/-- The token of the pair that is not sold. -/
theorem tokenOut_eq (h : PairStep pairs step) :
    (if step.tokenIn = pairs.token0 step.poolAddress then pairs.token1 step.poolAddress
      else pairs.token0 step.poolAddress) = step.tokenOut := by
  rcases h.tokens with ⟨hin, hout⟩ | ⟨hin, hout⟩
  · rw [if_pos hin, hout]
  · rw [if_neg (hin ▸ h.ne.symm), hout]

/-- The two outputs of the pair are the one output, in the token the step buys. -/
theorem amounts (h : PairStep pairs step) (amount : U256) (token : Address) :
    (if token = pairs.token0 step.poolAddress then
        (if step.tokenIn = pairs.token0 step.poolAddress then 0 else amount : U256).toNat else 0) +
      (if token = pairs.token1 step.poolAddress then
        (if step.tokenIn = pairs.token0 step.poolAddress then amount else 0 : U256).toNat else 0) =
      if token = step.tokenOut then amount.toNat else 0 := by
  rcases h.tokens with ⟨hin, hout⟩ | ⟨hin, hout⟩
  · simp [hin, hout]
  · simp [hin, hout, h.ne.symm]

/-- The bot receives what it asked for, in the token it buys. -/
theorem received (h : PairStep pairs step)
    (hpaid : Market.Paid pairs step.poolAddress
      (if step.tokenIn = pairs.token0 step.poolAddress then 0 else amount)
      (if step.tokenIn = pairs.token0 step.poolAddress then amount else 0) m m') :
    (m'.balance step.tokenOut).toNat = (m.balance step.tokenOut).toNat + amount.toNat := by
  rw [hpaid.balance, Nat.add_assoc, h.amounts, if_pos rfl]

theorem debit_balance (h : PairStep pairs step) :
    (m.debit step.tokenIn amount).balance step.tokenOut = m.balance step.tokenOut :=
  if_neg h.tokenOut_ne

end PairStep

theorem quote_congr (h : m'.reserves step.poolAddress = m.reserves step.poolAddress) :
    m'.quote pairs amount step = m.quote pairs amount step := by
  simp only [Market.quote, h]

/-! ## The quoter -/

/-- **One hop of the quoter.** -/
theorem quoteHop_step {view : FlashQuoter.PoolView} {params : QuoterParams} {i : Nat}
    (hview : m.Shows pairs view step.poolAddress) (h : PairStep pairs step)
    (hpool : params.pools[i]? = some step.poolAddress)
    (hversion : params.poolVersions[i]? = some step.protocol.toQuoterVersion)
    (hfee : params.fees[i]? = some step.fee) :
    FlashQuoter.quoteHop view params i (step.tokenIn, amount) =
      (m.quote pairs amount step).map fun out => (step.tokenOut, out) := by
  simp only [FlashQuoter.quoteHop, FlashQuoter.quoteV2, hpool, hversion, hfee, h.version,
    hview.token0, hview.token1, hview.reserves, Option.bind_eq_bind, Option.bind_some, true_or,
    if_true, decide_eq_true_eq, h.tokenOut_eq]
  rw [Market.quote, Option.map_eq_bind]
  simp only [decide_eq_true_eq]
  rfl

/-! ## The bot -/

section Bot

variable {dep : Deployment} {s t : Storage × Market}

theorem exec_callPairSwap {pair : Address} {zeroForOne : Bool} {x : Unit}
    (h : Exec (Market.answers dep pairs) (callPairSwap dep pair zeroForOne amount) s x t) :
    Market.Paid pairs pair (if zeroForOne then 0 else amount) (if zeroForOne then amount else 0)
      s.2 t.2 := by
  cases zeroForOne
  · exact (exec_call.mp h).2.2
  · exact (exec_call.mp h).2.2

/-- **A completed pair swap** returns the quote on the reserves at the time, and moves no other
pair's reserves. -/
theorem exec_swapV2Pair (h : PairStep pairs step)
    (hexec : Exec (Market.answers dep pairs)
      (swapV2Pair dep step.poolAddress step.tokenIn step.tokenOut amount
        (BitVec.ofNat 256 step.fee.toNat)) s out t) :
    s.2.quote pairs amount step = some out ∧
      ∀ p, p ≠ step.poolAddress → t.2.reserves p = s.2.reserves p := by
  simp only [swapV2Pair, exec_bind, exec_call, exec_ofOption, sub] at hexec
  obtain ⟨_, s, ⟨rfl, rfl⟩, _, s, ⟨rfl, rfl⟩, expected, s, ⟨hexpected, rfl⟩,
    _, s, ⟨-, rfl, rfl⟩, _, _, ⟨-, -, rfl⟩, _, u, hswap, _, _, ⟨-, rfl, rfl⟩,
    hout, rfl⟩ := hexec
  rw [V2ArbBot.constantProduct_eq_quoter] at hexpected
  have hpaid := exec_callPairSwap hswap
  simp only [decide_eq_true_eq] at hpaid
  refine ⟨?_, fun p hp => hpaid.reserves p hp⟩
  have hdelta := checkedSub_eq_some.mp hout
  rw [h.received hpaid, h.debit_balance] at hdelta
  obtain rfl : out = expected := BitVec.eq_of_toNat_eq (by omega)
  exact hexpected

/-- **A completed hop** of the bot: the next token and amount, as the quoter has them. -/
theorem exec_swapHop {arb : SwapParams} {i : Nat} {next : Address × U256}
    (h : PairStep pairs step) (hpool : arb.pools[i]? = some step.poolAddress)
    (hversion : arb.poolVersions[i]? = some step.protocol.toQuoterVersion)
    (hfee : arb.fees[i]? = some step.fee)
    (hexec : Exec (Market.answers dep pairs) (swapHop dep arb i (step.tokenIn, amount)) s next t) :
    next.1 = step.tokenOut ∧ s.2.quote pairs amount step = some next.2 ∧
      ∀ p, p ≠ step.poolAddress → t.2.reserves p = s.2.reserves p := by
  simp only [swapHop, exec_bind, exec_call, exec_ofOption, hpool, hversion, hfee, h.version,
    Option.getD_some, Option.some.injEq] at hexec
  obtain ⟨_, s, ⟨rfl, rfl⟩, _, s, ⟨rfl, rfl⟩, _, s, ⟨rfl, rfl⟩, nextToken, u, hnext, out, v,
    hswap, rfl, rfl⟩ := hexec
  rw [swapByVersion, if_pos rfl] at hswap
  have htoken : nextToken = step.tokenOut ∧ u = s := by
    rw [← h.tokenOut_eq]
    by_cases hin : step.tokenIn = pairs.token0 step.poolAddress
    · rw [if_pos hin] at hnext ⊢
      exact exec_call.mp hnext
    · rw [if_neg hin] at hnext ⊢
      exact exec_pure.mp hnext
  obtain ⟨rfl, rfl⟩ := htoken
  exact ⟨rfl, exec_swapV2Pair h hswap⟩

end Bot

/-! ## The estimator -/

theorem setWidth_ne_zero {reserve : BitVec 112} (h : reserve ≠ 0) :
    (reserve.setWidth 256 : U256) ≠ 0 := by
  intro hzero
  refine h (BitVec.eq_of_toNat_eq ?_)
  have := congrArg BitVec.toNat hzero
  rwa [BitVec.toNat_setWidth_of_le (by decide)] at this

theorem toNat_setWidth_lt (reserve : BitVec 112) :
    (reserve.setWidth 256 : U256).toNat < 2 ^ 112 := by
  rw [BitVec.toNat_setWidth_of_le (by decide)]
  exact reserve.isLt

theorem toNat_setWidth_pos {reserve : BitVec 112} (h : reserve ≠ 0) :
    0 < (reserve.setWidth 256 : U256).toNat :=
  toNat_pos (setWidth_ne_zero h)

theorem toNat_complement {fee : UInt32} (h : fee.toNat ≤ 10000) :
    (10000 - fee.toUInt64).toNat = 10000 - fee.toNat := by
  rw [UInt64.toNat_sub_of_le _ _ (by rw [UInt64.le_iff_toNat_le]; exact h)]
  rfl

namespace ConstantProductStep

/-- The two tests of the direction agree: by the order of the tokens, and by the first token. -/
theorem direction (h : ConstantProductStep pairs m step) :
    decide (step.tokenIn < step.tokenOut) =
      decide (step.tokenIn = pairs.token0 step.poolAddress) := by
  rcases h.tokens with ⟨hin, hout⟩ | ⟨hin, hout⟩
  · simp [hin, hout, h.sorted]
  · simp [hin, hout, h.ne.symm, BitVec.le_of_lt h.sorted]

/-- What a step is worth depends on the reserves of its own pair only. -/
theorem congr (h : ConstantProductStep pairs m step)
    (hreserves : m'.reserves step.poolAddress = m.reserves step.poolAddress) :
    ConstantProductStep pairs m' step :=
  { h with reserve0 := hreserves ▸ h.reserve0, reserve1 := hreserves ▸ h.reserve1 }

/-- **One hop of the estimator**: on 112-bit amounts the quote has the estimator's value, and that
value is of 112 bits again. -/
theorem quote_eq (h : ConstantProductStep pairs m step) (hamount : amount.toNat < 2 ^ 112) :
    m.quote pairs amount step = some (m.stepOut amount step) ∧
      (m.stepOut amount step).toNat < 2 ^ 112 := by
  have hdirection := h.direction
  simp only [Market.quote, Market.stepOut, hdirection]
  generalize decide (step.tokenIn = pairs.token0 step.poolAddress) = zeroForOne
  have hin : (if zeroForOne then (m.reserves step.poolAddress).1
      else (m.reserves step.poolAddress).2) ≠ 0 := by
    cases zeroForOne
    · exact h.reserve1
    · exact h.reserve0
  have hout : (if zeroForOne then (m.reserves step.poolAddress).2
      else (m.reserves step.poolAddress).1) ≠ 0 := by
    cases zeroForOne
    · exact h.reserve0
    · exact h.reserve1
  generalize (if zeroForOne then (m.reserves step.poolAddress).1
    else (m.reserves step.poolAddress).2) = reserveIn at hin
  generalize (if zeroForOne then (m.reserves step.poolAddress).2
    else (m.reserves step.poolAddress).1) = reserveOut at hout
  have hfits : ProductFits (10000 - step.fee.toNat) amount (reserveIn.setWidth 256)
      (reserveOut.setWidth 256) :=
    ProductFits.of_112 (setWidth_ne_zero hin) (Nat.sub_le _ _) hamount (toNat_setWidth_lt _)
      (toNat_setWidth_lt _)
  have hcomplement := toNat_complement h.fee.le
  have hvalue := toNat_getAmountOutV2 (setWidth_ne_zero hin) (setWidth_ne_zero hout)
    (hcomplement ▸ hfits)
  rw [hcomplement] at hvalue
  refine ⟨FlashQuoter.constantProduct_eq_some.mpr ⟨h.fee.le, hfits, hvalue⟩, ?_⟩
  rw [hvalue]
  exact (swapOut_lt (toNat_setWidth_pos hin) (by decide) (toNat_setWidth_pos hout)).trans
    (toNat_setWidth_lt _)

end ConstantProductStep

/-! ## Completion -/

/-- The bot's balances after a hop that sells `amount` and buys `out`. -/
def Market.trade (m : Market) (step : SwapStep) (amount out : U256) : Market :=
  { m with
    balance := fun t =>
      if t = step.tokenOut then m.balance t + out else (m.debit step.tokenIn amount).balance t }

theorem Market.trade_balance (m : Market) (step : SwapStep) (amount out : U256)
    (token : Address) :
    (m.trade step amount out).balance token =
      if token = step.tokenOut then m.balance token + out
      else (m.debit step.tokenIn amount).balance token := rfl

/-- A hop adds at most its output to any balance. -/
theorem Market.toNat_trade_balance_le (hbalance : amount ≤ m.balance step.tokenIn)
    {token : Address} (hroom : (m.balance token).toNat + out.toNat < 2 ^ 256) :
    ((m.trade step amount out).balance token).toNat ≤ (m.balance token).toNat + out.toNat := by
  rw [Market.trade_balance]
  by_cases hout : token = step.tokenOut
  · rw [if_pos hout, toNat_add_of_lt hroom]
  · rw [if_neg hout, Market.debit]
    by_cases hin : token = step.tokenIn
    · subst hin
      simp only [if_true]
      rw [BitVec.toNat_sub_of_le hbalance]
      exact (Nat.sub_le _ _).trans (Nat.le_add_right _ _)
    · simp only [if_neg hin]
      exact Nat.le_add_right _ _

/-- What a pair may do when it is paid: pay the output and keep its reserves. -/
theorem PairStep.paid_trade (h : PairStep pairs step) (amount : U256)
    (hroom : (m.balance step.tokenOut).toNat + out.toNat < 2 ^ 256) :
    Market.Paid pairs step.poolAddress
      (if step.tokenIn = pairs.token0 step.poolAddress then 0 else out)
      (if step.tokenIn = pairs.token0 step.poolAddress then out else 0)
      (m.debit step.tokenIn amount) (m.trade step amount out) := by
  refine ⟨fun _ _ => rfl, fun t => ?_⟩
  rw [Nat.add_assoc, h.amounts]
  by_cases ht : t = step.tokenOut
  · subst ht
    rw [if_pos rfl, h.debit_balance, Market.trade_balance, if_pos rfl, BitVec.toNat_add,
      Nat.mod_eq_of_lt hroom]
  · rw [if_neg ht, Market.trade_balance, if_neg ht, Nat.add_zero]

section Completion

variable {dep : Deployment} {s : Storage × Market}

theorem exec_callPairSwap_of {pair : Address} {zeroForOne : Bool}
    (h : Market.Paid pairs pair (if zeroForOne then 0 else amount)
      (if zeroForOne then amount else 0) s.2 m') :
    Exec (Market.answers dep pairs) (callPairSwap dep pair zeroForOne amount) s () (s.1, m') := by
  cases zeroForOne
  · exact exec_call.mpr ⟨rfl, rfl, h⟩
  · exact exec_call.mpr ⟨rfl, rfl, h⟩

/-- A pair swap with a quote can complete when the bot holds the amount and has room for the
output. -/
theorem exec_swapV2Pair_of (h : PairStep pairs step)
    (hquote : s.2.quote pairs amount step = some out) (hself : step.poolAddress ≠ dep.self)
    (hbalance : amount ≤ s.2.balance step.tokenIn)
    (hroom : (s.2.balance step.tokenOut).toNat + out.toNat < 2 ^ 256) :
    Exec (Market.answers dep pairs)
      (swapV2Pair dep step.poolAddress step.tokenIn step.tokenOut amount
        (BitVec.ofNat 256 step.fee.toNat)) s out (s.1, s.2.trade step amount out) := by
  have hexpected := hquote
  rw [Market.quote, ← V2ArbBot.constantProduct_eq_quoter] at hexpected
  have hpaid := h.paid_trade amount hroom
  have hreceived := h.received hpaid
  rw [h.debit_balance] at hreceived
  simp only [swapV2Pair, exec_bind, exec_call, exec_ofOption, sub]
  refine ⟨_, s, ⟨rfl, rfl⟩, _, s, ⟨rfl, rfl⟩, _, s, ⟨hexpected, rfl⟩, _, s, ⟨rfl, rfl, rfl⟩, (),
    _, ⟨hself, hbalance, rfl⟩, (), _, exec_callPairSwap_of ?_, _, _, ⟨rfl, rfl, rfl⟩,
    checkedSub_eq_some.mpr ?_, rfl⟩
  · simpa only [decide_eq_true_eq] using hpaid
  · simp only at hreceived ⊢
    omega

theorem exec_swapHop_of {arb : SwapParams} {i : Nat} (h : PairStep pairs step)
    (hpool : arb.pools[i]? = some step.poolAddress)
    (hversion : arb.poolVersions[i]? = some step.protocol.toQuoterVersion)
    (hfee : arb.fees[i]? = some step.fee) (hquote : s.2.quote pairs amount step = some out)
    (hself : step.poolAddress ≠ dep.self) (hbalance : amount ≤ s.2.balance step.tokenIn)
    (hroom : (s.2.balance step.tokenOut).toNat + out.toNat < 2 ^ 256) :
    Exec (Market.answers dep pairs) (swapHop dep arb i (step.tokenIn, amount)) s
      (step.tokenOut, out) (s.1, s.2.trade step amount out) := by
  simp only [swapHop, exec_bind, exec_call, exec_ofOption, hpool, hversion, hfee, h.version,
    Option.getD_some]
  refine ⟨_, s, ⟨rfl, rfl⟩, _, s, ⟨rfl, rfl⟩, _, s, ⟨rfl, rfl⟩, step.tokenOut, s, ?_, _, _,
    exec_swapV2Pair_of h hquote hself hbalance hroom, rfl, rfl⟩
  rw [← h.tokenOut_eq]
  split
  · exact exec_call.mpr ⟨rfl, rfl⟩
  · exact exec_pure.mpr ⟨rfl, rfl⟩

end Completion

end ArbBot
