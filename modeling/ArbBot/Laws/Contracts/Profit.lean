import ArbBot.Laws.Contracts.Lenders
import ArbBot.Laws.Contracts.Venues

/-!
# What an arbitrage can cost

The guards of the bot compare amounts: what the last hop returns with what is to be paid back. Among
plain venues this keeps the balance of the start token exactly when the path returns to it, or there
is nothing to pay back: a path that ends in another token is paid for out of what the bot held.
-/

namespace ArbBot

open Lib Lib.Prog V2ArbBot

namespace Venues

variable {dep : Deployment} {v : Venues} {completes : Call → World → World → Prop}
  {arb : SwapParams} {msg : Msg} {s t : World} {l : Ledger}

/-! ## Callbacks of the lenders -/

/-- The callback of a loan ends with the output of the path, which is enough to pay back. -/
theorem moved_executeOperation {n : Nat} {asset initiator : Address} {amount premium : U256}
    {data : Bytes} (hdata : data = arb.encode) (harb : arb.Fits)
    (hpending : s.1.aaveLiquidationPending = false)
    (hlent : Flow l.holdings s.2.holdings 0 (only asset amount))
    (h : v.completes dep n ⟨msg, .executeOperation asset amount premium initiator data⟩ s t) :
    ∃ repay out, checkedAdd amount premium = some repay ∧ repay ≤ out ∧
      Flow l.holdings t.2.holdings 0 (only (v.endToken asset arb.pools) out) := by
  cases n with
  | zero => exact h.elim
  | succ n =>
    have h : Exec (v.answers dep (v.completes dep n))
      (executeOperation dep msg asset amount premium initiator data) s () t := h
    simp only [executeOperation, add, exec_bind, exec_require, exec_get, exec_ofOption] at h
    obtain ⟨_, _, ⟨-, rfl⟩, _, s, ⟨rfl, rfl⟩, _, _, ⟨-, rfl⟩, _, _, ⟨-, rfl⟩, repay, _,
      ⟨hrepay, rfl⟩, h⟩ := h
    rw [if_neg (by simp [hpending])] at h
    simp only [exec_bind, exec_require, exec_ofOption] at h
    obtain ⟨arb', _, ⟨hdecode, rfl⟩, out, u, hpath, _, _, ⟨hprofit, rfl⟩, hreset⟩ := h
    rw [hdata] at hdecode
    obtain rfl := SwapParams.eq_of_decode harb hdecode
    have hflow := hlent.through (moved_executeSwapPath (pays_completes n) hpath)
    exact ⟨repay, out, hrepay, hprofit, holdings_resetApprove hreset ▸ hflow⟩

/-- The callback of a pool pays back out of what the bot holds, the output of the path included. -/
theorem moved_uniswapV3FlashCallback {n : Nat} {flashPool startToken : Address}
    {fee0 fee1 : U256} {data : Bytes} (hdata : data = arb.encodeFlash flashPool startToken)
    (harb : arb.Fits) (hself : msg.sender ≠ dep.self)
    (hlent : Flow l.holdings s.2.holdings 0 (only startToken arb.amountIn))
    (h : v.completes dep n ⟨msg, .uniswapV3FlashCallback fee0 fee1 data⟩ s t) :
    ∃ repay out : U256, arb.amountIn.toNat ≤ repay.toNat ∧ repay ≤ out ∧
      Flow l.holdings t.2.holdings (only startToken repay)
        (only (v.endToken startToken arb.pools) out) := by
  cases n with
  | zero => exact h.elim
  | succ n =>
    have h : Exec (v.answers dep (v.completes dep n))
      (uniswapV3FlashCallback dep msg fee0 fee1 data) s () t := h
    obtain ⟨out, _, hread, h⟩ := exec_bind.mp h
    obtain ⟨hdecode, rfl⟩ := exec_ofOption.mp hread
    rw [hdata] at hdecode
    obtain rfl := SwapParams.eq_of_decodeFlash harb hdecode
    simp only [add, exec_bind, exec_require, exec_get, exec_ofOption, exec_call] at h
    obtain ⟨_, _, ⟨hsender, rfl⟩, _, s, ⟨rfl, rfl⟩, _, _, ⟨-, rfl⟩, out, u, hpath, withFee0, _,
      ⟨hfee0, rfl⟩, repay, _, ⟨hfee1, rfl⟩, _, _, ⟨hprofit, rfl⟩, hpaid⟩ := h
    obtain ⟨-, hback⟩ := moved_transfer (hsender ▸ hself) hpaid
    have hflow := (hlent.through (moved_executeSwapPath (pays_completes n) hpath)).trans hback
    rw [zero_add, add_zero] at hflow
    refine ⟨repay, out, ?_, hprofit, hflow⟩
    rw [checkedAdd_eq_some.mp hfee1, checkedAdd_eq_some.mp hfee0]
    omega

/-! ## Providers -/

/-- The arbitrage pays `cost` of its start token for an output that is not less. -/
def PaidFor (v : Venues) (dep : Deployment) (arb : SwapParams) (s t : World) (cost : U256) : Prop :=
  ∃ out : U256, cost ≤ out ∧ Moved s t (only (v.startToken dep arb) cost)
    (only (v.endToken (v.startToken dep arb) arb.pools) out)

theorem exec_startToken {token : Address}
    (h : Exec (v.answers dep completes) (if arb.startToken ≠ 0 then Pure.pure arb.startToken
      else resolveStartToken dep (arb.pools[0]?.getD 0) : V2ArbBot.Bot Address) s token t) :
    token = v.startToken dep arb ∧ t = s := by
  rw [startToken]
  by_cases hnamed : arb.startToken ≠ 0
  · rw [if_pos hnamed] at h ⊢
    exact h
  · rw [if_neg hnamed] at h ⊢
    simp only [resolveStartToken, exec_bind, exec_call] at h
    obtain ⟨_, _, ⟨-, rfl, rfl⟩, _, _, ⟨-, rfl, rfl⟩, rfl, rfl⟩ := h
    exact ⟨rfl, rfl⟩

theorem eq_add_of_checkedAdd {a b c : U256} (h : checkedAdd a b = some c) : a + b = c := by
  unfold checkedAdd at h
  split at h
  · exact Option.some.inj h
  · cases h

/-- The lender lends the input, and draws it with its premium. -/
theorem paidFor_flashLoanSimple {n : Nat} {pool : Address} (harb : arb.Fits)
    (hpending : s.1.aaveLiquidationPending = false)
    (h : v.answers dep (v.completes dep n) s
      (.flashLoanSimple pool dep.self (v.startToken dep arb) arb.amountIn arb.encode) () t) :
    ∃ repay, checkedAdd arb.amountIn (v.premium (v.startToken dep arb) arb.amountIn) = some repay ∧
      PaidFor v dep arb s t repay := by
  obtain ⟨-, -, l, msg, u, hlent, -, hback, -, hdrawn⟩ := h
  have hpending' : ((s.1, l) : World).1.aaveLiquidationPending = false := hpending
  obtain ⟨repay, out, hrepay, hprofit, hflow⟩ :=
    moved_executeOperation rfl harb hpending' (flow_credited hlent) hback
  rw [eq_add_of_checkedAdd hrepay] at hdrawn
  have htotal := hflow.trans (flow_drawn hdrawn)
  rw [zero_add, add_zero] at htotal
  exact ⟨repay, hrepay, out, hprofit, htotal⟩

/-- A pool lends on the side of the start token. -/
theorem flow_lent {pool token : Address} {amount : U256} {l' l'' : Ledger}
    (hside : 0 < (if token = v.token0 pool then amount else 0) ∨
      0 < (if token = v.token1 pool then amount else 0))
    (h0 : Credited (v.token0 pool) (if token = v.token0 pool then amount else 0) l l')
    (h1 : Credited (v.token1 pool) (if token = v.token1 pool then amount else 0) l' l'') :
    amount ≠ 0 ∧ Flow l.holdings l''.holdings 0 (only token amount) := by
  have hflow := (flow_credited h0).trans (flow_credited h1)
  have hdistinct := v.distinct pool
  by_cases hfirst : token = v.token0 pool
  · subst hfirst
    rw [if_pos rfl, if_neg hdistinct] at hside
    refine ⟨fun hzero => by simp [hzero] at hside, ?_⟩
    simpa [only, hdistinct] using hflow
  · rw [if_neg hfirst] at hside
    have hsecond : token = v.token1 pool := by
      by_contra hne
      simp [hne] at hside
    subst hsecond
    rw [if_pos rfl] at hside
    refine ⟨fun hzero => by simp [hzero] at hside, ?_⟩
    simpa [only, hdistinct.symm] using hflow

/-- The pool lends the input, and is paid it back with its fees. -/
theorem paidFor_executeArbWithFlashPool {n : Nat} {pool : Address} (harb : arb.Fits)
    (h : Exec (v.answers dep (v.completes dep n))
      (executeArbWithFlashPool dep pool (v.startToken dep arb) arb) s () t) :
    ∃ repay, arb.amountIn ≠ 0 ∧ repay ≠ 0 ∧ PaidFor v dep arb s t repay := by
  simp only [executeArbWithFlashPool, exec_bind, exec_call, exec_require] at h
  obtain ⟨_, _, ⟨-, rfl, rfl⟩, _, s, ⟨-, rfl, rfl⟩, _, _, ⟨hside, rfl⟩, hself, -, l, l', msg, h0,
    h1, rfl, hback⟩ := h
  obtain ⟨hamount, hlent⟩ := flow_lent hside h0 h1
  obtain ⟨repay, out, hle, hprofit, hflow⟩ :=
    moved_uniswapV3FlashCallback rfl harb hself hlent hback
  refine ⟨repay, hamount, ?_, out, hprofit, hflow⟩
  rintro rfl
  exact hamount (BitVec.eq_of_toNat_eq (by simpa using hle))

/-- The direct branch pays the input out of what the bot holds. -/
theorem paidFor_direct {token : Address} (hpays : Pays dep completes)
    (htoken : token = v.startToken dep arb)
    (h : Exec (v.answers dep completes) (do
      let balance ← V2ArbBot.call (.balanceOf token dep.self)
      require (arb.amountIn ≤ balance)
      let amountOut ← executeSwapPath dep arb token arb.amountIn
      require (arb.amountIn < amountOut)) s () t) :
    PaidFor v dep arb s t arb.amountIn := by
  simp only [exec_bind, exec_call, exec_require] at h
  obtain ⟨_, s, ⟨-, -, rfl⟩, _, _, ⟨-, rfl⟩, out, u, hpath, hprofit, rfl⟩ := h
  subst htoken
  exact ⟨out, BitVec.le_of_lt hprofit, moved_executeSwapPath hpays hpath⟩

/-- The input and its premium are nothing only together. -/
theorem cost_aave {repay : U256} (haave : arb.flashLoanProvider = 0)
    (h : checkedAdd arb.amountIn (v.premium (v.startToken dep arb) arb.amountIn) = some repay) :
    repay = 0 ↔ v.Costless dep arb := by
  have hsum := checkedAdd_eq_some.mp h
  have hzero : ∀ {w : U256}, w = 0 ↔ w.toNat = 0 := BitVec.toNat_inj.symm.trans (by simp)
  constructor
  · intro hrepay
    rw [hzero.mp hrepay] at hsum
    have hamount : arb.amountIn = 0 := hzero.mpr (by omega)
    refine ⟨hamount, fun _ => hzero.mpr ?_⟩
    rw [hamount] at hsum
    omega
  · rintro ⟨hamount, hpremium⟩
    rw [hamount, hpremium haave] at hsum
    exact hzero.mpr hsum

/-- What an arbitrage pays, and when that is nothing. -/
theorem paidFor_executeArbitrage {n : Nat} (harb : arb.Fits)
    (hpending : s.1.aaveLiquidationPending = false)
    (h : v.completes dep n ⟨msg, .executeArbitrage arb⟩ s t) :
    ∃ cost, PaidFor v dep arb s t cost ∧ (cost = 0 ↔ v.Costless dep arb) := by
  cases n with
  | zero => exact h.elim
  | succ n =>
    have h : Exec (v.answers dep (v.completes dep n)) (executeArbitrage dep msg arb) s () t := h
    simp only [executeArbitrage, onlyOwner, exec_bind, exec_require, exec_get] at h
    obtain ⟨_, _, ⟨-, rfl⟩, _, _, ⟨-, rfl⟩, _, _, ⟨-, rfl⟩, token, s, htoken, _, _, ⟨rfl, rfl⟩,
      hbranch⟩ := h
    obtain ⟨rfl, rfl⟩ := exec_startToken htoken
    split at hbranch
    · rename_i haave
      simp only [exec_bind, exec_require, exec_call] at hbranch
      obtain ⟨_, _, ⟨-, rfl⟩, _, _, ⟨-, rfl⟩, hloan⟩ := hbranch
      obtain ⟨repay, hrepay, hpaid⟩ := paidFor_flashLoanSimple harb hpending hloan
      exact ⟨repay, hpaid, cost_aave haave hrepay⟩
    split at hbranch
    · obtain ⟨_, _, hset, hloan⟩ := exec_bind.mp hbranch
      obtain ⟨-, rfl⟩ := exec_require.mp hset
      obtain ⟨repay, hamount, hrepay, hpaid⟩ := paidFor_executeArbWithFlashPool harb hloan
      exact ⟨repay, hpaid, iff_of_false hrepay fun hfree => hamount hfree.1⟩
    split at hbranch
    · obtain ⟨_, _, hset, hloan⟩ := exec_bind.mp hbranch
      obtain ⟨-, rfl⟩ := exec_require.mp hset
      obtain ⟨repay, hamount, hrepay, hpaid⟩ := paidFor_executeArbWithFlashPool harb hloan
      exact ⟨repay, hpaid, iff_of_false hrepay fun hfree => hamount hfree.1⟩
    · rename_i haave _ _
      have hpaid := paidFor_direct (pays_completes n) rfl hbranch
      exact ⟨arb.amountIn, hpaid, fun hzero => ⟨hzero, fun hprovider => (haave hprovider).elim⟩,
        fun hfree => hfree.1⟩

end Venues

/-- **When an arbitrage costs no start tokens.** Among plain venues, whatever the history, the
balances and the provider: an arbitrage that completes leaves the bot with at least as much of its
start token exactly when its path returns to that token, or there is nothing to pay back. -/
theorem Venues.executeArbitrage_keeps_iff {c : Chain} {v : Venues} {l : Ledger}
    {past : List Chain.Event} {s t : World} {msg : Msg} {arb : SwapParams} {n : Nat}
    (hpast : Run c.lentStep (Storage.initial, l) past s) (harb : arb.Fits)
    (h : v.completes c.dep n ⟨msg, .executeArbitrage arb⟩ s t) :
    s.2.balance (v.startToken c.dep arb) ≤ t.2.balance (v.startToken c.dep arb) ↔
      v.Closed c.dep arb ∨ v.Costless c.dep arb := by
  have hpending := (unarmed_lentRun hpast).aave
  obtain ⟨cost, ⟨out, hprofit, hmoved⟩, hfree⟩ := paidFor_executeArbitrage harb hpending h
  have hkeeps := hmoved.le_iff (BitVec.le_def.mp hprofit)
  have hzero : cost.toNat = 0 ↔ cost = 0 := BitVec.toNat_inj.symm.trans (by simp) |>.symm
  rw [BitVec.le_def, Closed, ← hfree, ← hzero]
  exact hkeeps

/-! ## Two paths -/

namespace Venues

section Pairs

variable {dep : Deployment} {v : Venues} {completes : Call → World → World → Prop} {s : World}

theorem credit_zero (l : Ledger) (token : Address) : l.credit token 0 = l := by
  simp [Ledger.credit]

theorem balance_credit (l : Ledger) (token : Address) (amount : U256) :
    (l.credit token amount).balance token = l.balance token + amount := if_pos rfl

theorem exec_callPairSwap {pair tokenIn : Address} {amountOut : U256} (hself : pair ≠ dep.self)
    (hroom : (s.2.balance (v.next tokenIn pair)).toNat + amountOut.toNat < 2 ^ 256) :
    Exec (v.answers dep completes)
      (callPairSwap dep pair (decide (tokenIn = v.token0 pair)) amountOut) s ()
      (s.1, s.2.credit (v.next tokenIn pair) amountOut) := by
  have hnone : ∀ (l : Ledger) token, Credited token 0 l l := fun l token =>
    ⟨by simpa using (l.balance token).isLt, (credit_zero l token).symm⟩
  rw [callPairSwap]
  by_cases hside : tokenIn = v.token0 pair
  · rw [if_pos (decide_eq_true hside)]
    have hnext : v.next tokenIn pair = v.token1 pair := if_pos hside
    rw [hnext] at hroom ⊢
    exact exec_call.mpr ⟨hself, rfl, rfl, rfl, s.2, hnone _ _, hroom, rfl⟩
  · rw [if_neg (by simpa using hside)]
    have hnext : v.next tokenIn pair = v.token0 pair := if_neg hside
    rw [hnext] at hroom ⊢
    exact exec_call.mpr ⟨hself, rfl, rfl, rfl, _, ⟨hroom, rfl⟩, hnone _ _⟩

/-- The reserves of a pair on the side that is sold into, and on the other. -/
def sided (v : Venues) (token pair : Address) (reserves : BitVec 112 × BitVec 112) : U256 × U256 :=
  let zeroForOne := decide (token = v.token0 pair)
  ((if zeroForOne then reserves.1 else reserves.2).setWidth 256,
    (if zeroForOne then reserves.2 else reserves.1).setWidth 256)

theorem exec_swapV2Pair {pair tokenIn : Address} {reserves : BitVec 112 × BitVec 112}
    {amountIn fee out : U256} (hself : pair ≠ dep.self)
    (hout : constantProduct amountIn (v.sided tokenIn pair reserves).1
      (v.sided tokenIn pair reserves).2 fee = some out)
    (hin : amountIn ≤ s.2.balance tokenIn)
    (hroom : (s.2.balance (v.next tokenIn pair)).toNat + out.toNat < 2 ^ 256) :
    Exec (v.answers dep completes) (swapV2Pair dep pair tokenIn (v.next tokenIn pair) amountIn fee)
      s out (s.1, (s.2.debit tokenIn amountIn).credit (v.next tokenIn pair) out) := by
  have hne := v.next_ne tokenIn pair
  have hbefore : (s.2.debit tokenIn amountIn).balance (v.next tokenIn pair) =
      s.2.balance (v.next tokenIn pair) := if_neg hne.symm
  have hout' : checkedSub (((s.2.debit tokenIn amountIn).credit (v.next tokenIn pair) out).balance
      (v.next tokenIn pair)) (s.2.balance (v.next tokenIn pair)) = some out := by
    rw [checkedSub_eq_some, balance_credit, hbefore, BitVec.toNat_add, Nat.mod_eq_of_lt hroom,
      Nat.add_comm]
  have hsent : v.answers dep completes s (.transfer tokenIn pair amountIn) ()
      (s.1, s.2.debit tokenIn amountIn) := ⟨hin, by rw [if_neg hself]⟩
  have hpaid : Exec (v.answers dep completes)
      (callPairSwap dep pair (decide (tokenIn = v.token0 pair)) out)
      (s.1, s.2.debit tokenIn amountIn) ()
      (s.1, (s.2.debit tokenIn amountIn).credit (v.next tokenIn pair) out) :=
    exec_callPairSwap hself (hbefore.symm ▸ hroom)
  refine exec_bind.mpr ⟨reserves, s, exec_call.mpr ⟨hself, rfl⟩, ?_⟩
  refine exec_bind.mpr ⟨v.token0 pair, s, exec_call.mpr ⟨hself, rfl, rfl⟩, ?_⟩
  refine exec_bind.mpr ⟨out, s, exec_ofOption.mpr ⟨hout, rfl⟩, ?_⟩
  refine exec_bind.mpr ⟨_, s, exec_call.mpr ⟨rfl, rfl, rfl⟩, ?_⟩
  refine exec_bind.mpr ⟨(), _, exec_call.mpr hsent, ?_⟩
  refine exec_bind.mpr ⟨(), _, hpaid, ?_⟩
  refine exec_bind.mpr ⟨_, _, exec_call.mpr ⟨rfl, rfl, rfl⟩, ?_⟩
  exact exec_ofOption.mpr ⟨hout', rfl⟩

/-- A hop through a pair whose reserves allow it. -/
theorem exec_swapHop_pair {arb : SwapParams} {i : Nat} {cur : Address × U256} {pool : Address}
    {reserves : BitVec 112 × BitVec 112} {out : U256} (hpool : arb.pools[i]? = some pool)
    (hversion : arb.poolVersions[i]? = some 0) (hself : pool ≠ dep.self)
    (hout : constantProduct cur.2 (v.sided cur.1 pool reserves).1 (v.sided cur.1 pool reserves).2
      (BitVec.ofNat 256 (arb.fees[i]?.getD 25).toNat) = some out)
    (hin : cur.2 ≤ s.2.balance cur.1)
    (hroom : (s.2.balance (v.next cur.1 pool)).toNat + out.toNat < 2 ^ 256) :
    Exec (v.answers dep completes) (swapHop dep arb i cur) s (v.next cur.1 pool, out)
      (s.1, (s.2.debit cur.1 cur.2).credit (v.next cur.1 pool) out) := by
  have hnext : Exec (v.answers dep completes) (if cur.1 = v.token0 pool then
      V2ArbBot.call (.token1 pool) else Pure.pure (v.token0 pool)) s (v.next cur.1 pool) s := by
    rw [next]
    split
    · exact exec_call.mpr ⟨hself, rfl, rfl⟩
    · exact exec_pure.mpr ⟨rfl, rfl⟩
  refine exec_bind.mpr ⟨pool, s, exec_ofOption.mpr ⟨hpool, rfl⟩, ?_⟩
  refine exec_bind.mpr ⟨0, s, exec_ofOption.mpr ⟨hversion, rfl⟩, ?_⟩
  refine exec_bind.mpr ⟨v.token0 pool, s, exec_call.mpr ⟨hself, rfl, rfl⟩, ?_⟩
  refine exec_bind.mpr ⟨_, s, hnext, exec_bind.mpr ⟨out, _, ?_, exec_pure.mpr ⟨rfl, rfl⟩⟩⟩
  rw [swapByVersion, if_pos rfl]
  exact exec_swapV2Pair hself hout hin hroom

end Pairs

/-- Pools of the tokens 3 and 4, and lenders that charge nothing. -/
def twoTokens : Venues where
  token0 := fun _ => 3
  token1 := fun _ => 4
  distinct := fun _ => by decide
  premium := fun _ _ => 0
  flashFee := fun _ _ => 0

/-- A hundred units of the first token through some pairs, out of what the bot holds. -/
def through (pools : List Address) : SwapParams where
  pools := pools
  poolVersions := pools.map fun _ => 0
  fees := []
  amountIn := 100
  startToken := 3
  flashLoanProvider := 255

/-- The account after the first pair, which has reserves of 1000 and 3000. -/
def away : Ledger := (funds.debit 3 100).credit 4 272

/-- The account after a second pair with reserves of 1000 on each side. -/
def home : Ledger := (away.debit 4 272).credit 3 213

theorem exec_away {completes : Call → World → World → Prop} {pools : List Address} :
    Exec (twoTokens.answers oneToken.dep completes)
      (swapHops oneToken.dep (through (10 :: pools)) 3 100 1) (Storage.initial, funds) (4, 272)
      (Storage.initial, away) := by
  have hout : constantProduct 100 1000 3000 25 = some 272 := by decide +kernel
  have hhop : Exec (twoTokens.answers oneToken.dep completes)
      (swapHop oneToken.dep (through (10 :: pools)) 0 (3, 100)) (Storage.initial, funds) (4, 272)
      (Storage.initial, away) :=
    @exec_swapHop_pair oneToken.dep twoTokens completes (Storage.initial, funds) _ 0 (3, 100) 10
      (1000, 3000) 272 rfl rfl (by decide) hout (by decide) (by decide)
  exact exec_bind.mpr ⟨(3, 100), _, exec_pure.mpr ⟨rfl, rfl⟩, hhop⟩

theorem exec_home {completes : Call → World → World → Prop} :
    Exec (twoTokens.answers oneToken.dep completes)
      (swapHops oneToken.dep (through [10, 11]) 3 100 2) (Storage.initial, funds) (3, 213)
      (Storage.initial, home) := by
  have hout : constantProduct 272 1000 1000 25 = some 213 := by decide +kernel
  have hhop : Exec (twoTokens.answers oneToken.dep completes)
      (swapHop oneToken.dep (through [10, 11]) 1 (4, 272)) (Storage.initial, away) (3, 213)
      (Storage.initial, home) :=
    @exec_swapHop_pair oneToken.dep twoTokens completes (Storage.initial, away) _ 1 (4, 272) 11
      (1000, 1000) 213 rfl rfl (by decide) hout (by decide) (by decide)
  exact exec_bind.mpr ⟨(4, 272), _, exec_away, hhop⟩

/-- The arbitrage completes when its hops give more of anything than it started with. -/
theorem completes_through {pool : Address} {pools : List Address} {token : Address} {out : U256}
    {t : World}
    (hhops : Exec (twoTokens.answers oneToken.dep (twoTokens.completes oneToken.dep 0))
      (swapHops oneToken.dep (through (pool :: pools)) 3 100 (pool :: pools).length)
      (Storage.initial, funds) (token, out) t)
    (hprofit : 100 < out) :
    twoTokens.completes oneToken.dep 1 ⟨⟨2, 0, 0⟩, .executeArbitrage (through (pool :: pools))⟩
      (Storage.initial, funds) t := by
  have hlengths : (through (pool :: pools)).pools.length =
      (through (pool :: pools)).poolVersions.length := by
    rw [through, List.length_map]
  have hstart : (through (pool :: pools)).startToken = 3 := rfl
  have hamount : (through (pool :: pools)).amountIn = 100 := rfl
  have hprovider : (through (pool :: pools)).flashLoanProvider = 255 := rfl
  refine exec_bind.mpr ⟨(), _, exec_require.mpr ⟨rfl, rfl⟩, ?_⟩
  refine exec_bind.mpr ⟨(), _, exec_require.mpr ⟨Nat.succ_pos _, rfl⟩, ?_⟩
  refine exec_bind.mpr ⟨(), _, exec_require.mpr ⟨hlengths, rfl⟩, ?_⟩
  rw [hstart, if_pos (by decide)]
  refine exec_bind.mpr ⟨3, _, exec_pure.mpr ⟨rfl, rfl⟩, ?_⟩
  rw [exec_get_bind, hprovider, hamount, if_neg (by decide), if_neg (by decide),
    if_neg (by decide)]
  have hpath : Exec (twoTokens.answers oneToken.dep (twoTokens.completes oneToken.dep 0))
      (executeSwapPath oneToken.dep (through (pool :: pools)) 3 100) (Storage.initial, funds) out
      t :=
    exec_bind.mpr ⟨(token, out), t, hhops, exec_pure.mpr ⟨rfl, rfl⟩⟩
  refine exec_bind.mpr ⟨1000, _, exec_call.mpr ⟨rfl, rfl, rfl⟩, ?_⟩
  refine exec_bind.mpr ⟨(), _, exec_require.mpr ⟨by decide, rfl⟩, ?_⟩
  exact exec_bind.mpr ⟨out, t, hpath, exec_require.mpr ⟨hprofit, rfl⟩⟩

end Venues

/-- A path that comes back: the bot ends with 1113 units where it had 1000. -/
theorem Venues.executeArbitrage_keeps_iff_home :
    (funds.balance 3 ≤ home.balance 3) ↔ twoTokens.Closed oneToken.dep (through [10, 11]) ∨
      twoTokens.Costless oneToken.dep (through [10, 11]) :=
  Venues.executeArbitrage_keeps_iff (.nil _) ⟨by decide, by decide, by decide⟩
    (completes_through exec_home (by decide))

/-- **An arbitrage can cost start tokens**: a path that ends in another token is taken for a profit
when its output is the larger number. -/
theorem Venues.not_executeArbitrage_keeps :
    ¬ ∀ (c : Chain) (v : Venues) (l : Ledger) (past : List Chain.Event) (s t : World) (msg : Msg)
      (arb : SwapParams) (n : Nat), Run c.lentStep (Storage.initial, l) past s → arb.Fits →
      v.completes c.dep n ⟨msg, .executeArbitrage arb⟩ s t →
      s.2.balance (v.startToken c.dep arb) ≤ t.2.balance (v.startToken c.dep arb) := by
  intro h
  have hstep : twoTokens.completes oneToken.dep 1 ⟨⟨2, 0, 0⟩, .executeArbitrage (through [10])⟩
      (Storage.initial, funds) (Storage.initial, away) :=
    completes_through exec_away (by decide)
  have hfits : (through [10]).Fits := ⟨by decide, by decide, by decide⟩
  have hkept := h oneToken twoTokens funds [] _ _ _ _ 1 (.nil _) hfits hstep
  exact absurd hkept (by decide)

end ArbBot
