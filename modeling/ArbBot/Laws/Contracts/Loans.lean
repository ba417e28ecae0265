import ArbBot.Contracts.Loans
import ArbBot.Laws.Contracts.Params
import ArbBot.Laws.Contracts.Paths

/-!
# What an arbitrage earns

The balances of the bot over a path of pairs: each hop takes what it sells from one balance and adds
what it buys to another, so the amounts between the first and the last cancel. A loan is repaid with
what it costs. So a completed arbitrage over a path that comes back to its start token has changed
the balance of this token by exactly what the path gives less what went in and what the loan costs,
and no other.
-/

namespace ArbBot

open Lib Lib.Prog V2ArbBot

/-! ## Balances along a path -/

/-- What a holder of an amount of a token has of another. -/
def held (token : Address) (amount : U256) (other : Address) : Nat :=
  if other = token then amount.toNat else 0

theorem held_self (token : Address) (amount : U256) : held token amount token = amount.toNat :=
  if_pos rfl

theorem held_of_ne {token other : Address} (h : other ≠ token) (amount : U256) :
    held token amount other = 0 := if_neg h

section Market

variable {dep : Deployment} {pairs : Pairs} {step : SwapStep} {amount out : U256}
  {s t : Storage × Market}

theorem toNat_debit (m : Market) {token : Address} (h : amount ≤ m.balance token)
    (other : Address) :
    ((m.debit token amount).balance other).toNat + held token amount other =
      (m.balance other).toNat := by
  unfold Market.debit held
  by_cases hother : other = token
  · subst hother
    simp only [if_true]
    rw [BitVec.toNat_sub_of_le h]
    exact Nat.sub_add_cancel (BitVec.le_def.mp h)
  · simp only [if_neg hother, Nat.add_zero]

/-- A completed pair swap takes what is sold and adds what is bought. -/
theorem books_swapV2Pair (h : PairStep pairs step)
    (hexec : Exec (Market.answers dep pairs)
      (swapV2Pair dep step.poolAddress step.tokenIn step.tokenOut amount
        (BitVec.ofNat 256 step.fee.toNat)) s out t) :
    t.1 = s.1 ∧ ∀ token, (t.2.balance token).toNat + held step.tokenIn amount token =
      (s.2.balance token).toNat + held step.tokenOut out token := by
  simp only [swapV2Pair, exec_bind, exec_call, exec_ofOption, sub] at hexec
  obtain ⟨_, s, ⟨rfl, rfl⟩, _, s, ⟨rfl, rfl⟩, expected, s, ⟨-, rfl⟩, _, s, ⟨-, rfl, rfl⟩,
    _, _, ⟨-, hbalance, rfl⟩, _, u, hswap, _, _, ⟨-, rfl, rfl⟩, hout, rfl⟩ := hexec
  have hstore : t.1 = s.1 := by
    unfold callPairSwap at hswap
    split at hswap <;> exact (exec_call.mp hswap).2.1
  have hpaid := exec_callPairSwap hswap
  simp only [decide_eq_true_eq] at hpaid
  -- What is received is what was asked for.
  have hdelta := checkedSub_eq_some.mp hout
  rw [h.received hpaid, h.debit_balance] at hdelta
  obtain rfl : out = expected := BitVec.eq_of_toNat_eq (by omega)
  refine ⟨hstore, fun token => ?_⟩
  have hdebit := toNat_debit s.2 hbalance token
  have hbought : (t.2.balance token).toNat =
      ((s.2.debit step.tokenIn amount).balance token).toNat + held step.tokenOut out token := by
    rw [hpaid.balance, Nat.add_assoc, h.amounts]
    rfl
  omega

/-- So does a completed hop. -/
theorem books_swapHop {arb : SwapParams} {i : Nat} {next : Address × U256}
    (h : PairStep pairs step) (hpool : arb.pools[i]? = some step.poolAddress)
    (hversion : arb.poolVersions[i]? = some step.protocol.toQuoterVersion)
    (hfee : arb.fees[i]? = some step.fee)
    (hexec : Exec (Market.answers dep pairs) (swapHop dep arb i (step.tokenIn, amount)) s next t) :
    t.1 = s.1 ∧ ∀ token, (t.2.balance token).toNat + held step.tokenIn amount token =
      (s.2.balance token).toNat + held next.1 next.2 token := by
  have hnext := (exec_swapHop h hpool hversion hfee hexec).1
  simp only [swapHop, exec_bind, exec_call, exec_ofOption, hpool, hversion, hfee, h.version,
    Option.getD_some, Option.some.injEq] at hexec
  obtain ⟨_, s, ⟨rfl, rfl⟩, _, s, ⟨rfl, rfl⟩, _, s, ⟨rfl, rfl⟩, nextToken, u, htoken, out, v,
    hswap, rfl, rfl⟩ := hexec
  rw [swapByVersion, if_pos rfl] at hswap
  have hstate : u = s := by
    split at htoken
    · exact (exec_call.mp htoken).2
    · exact (exec_pure.mp htoken).2
  obtain rfl := hstate
  obtain rfl : nextToken = step.tokenOut := hnext
  exact books_swapV2Pair h hswap

variable {path : SwapPath} {amountIn : U256}

/-- **The balances along a path**: after any number of hops, what went in has become what is in
hand, and nothing else has changed. -/
theorem books_swapHops {provider : UInt8} {cur : Address × U256} {n : Nat}
    (h : ConstantProductPath pairs s.2 path.steps) (hamount : amountIn.toNat < 2 ^ 112)
    (hn : n ≤ path.steps.length)
    (hexec : Exec (Market.answers dep pairs)
      (swapHops dep ((path.toQuoterParams amountIn).toSwapParams provider)
        (path.toQuoterParams amountIn).startToken amountIn n) s cur t) :
    t.1 = s.1 ∧ ∀ token,
      (t.2.balance token).toNat + held (path.toQuoterParams amountIn).startToken amountIn token =
        (s.2.balance token).toNat + held cur.1 cur.2 token := by
  induction n generalizing cur t with
  | zero =>
    obtain ⟨rfl, rfl⟩ := exec_pure.mp hexec
    exact ⟨rfl, fun _ => rfl⟩
  | succ n ih =>
    obtain ⟨⟨token, amount⟩, u, hhops, hhop⟩ := exec_bind.mp hexec
    obtain ⟨hstore, hbooks⟩ := ih (by omega) hhops
    obtain ⟨-, htoken, -⟩ := exec_swapHops_path h hamount (by omega) hhops
    have hget : path.steps[n]? = some path.steps[n] := List.getElem?_eq_getElem hn
    obtain rfl := htoken _ hget
    obtain ⟨hstore', hbooks'⟩ := books_swapHop (h.get hget).toPairStep
      (toQuoterParams_pools amountIn hget) (toQuoterParams_poolVersions amountIn hget)
      (toQuoterParams_fees amountIn hget) hhop
    refine ⟨hstore'.trans hstore, fun other => ?_⟩
    have hbefore := hbooks other
    have hafter := hbooks' other
    dsimp only at hbefore
    omega

/-- The path comes back to the token it starts with. -/
def ClosedPath (path : SwapPath) : Prop :=
  ∃ first last, path.steps.head? = some first ∧ path.steps.getLast? = some last ∧
    last.tokenOut = first.tokenIn

/-- What is in hand at the end of a path that comes back is of the start token. -/
theorem exec_swapHops_closed {provider : UInt8} {cur : Address × U256}
    (h : ConstantProductPath pairs s.2 path.steps) (hclosed : ClosedPath path)
    (hamount : amountIn.toNat < 2 ^ 112)
    (hexec : Exec (Market.answers dep pairs)
      (swapHops dep ((path.toQuoterParams amountIn).toSwapParams provider)
        (path.toQuoterParams amountIn).startToken amountIn path.steps.length) s cur t) :
    cur.1 = (path.toQuoterParams amountIn).startToken := by
  obtain ⟨first, last, hfirst, hlast, hback⟩ := hclosed
  rw [toQuoterParams_startToken amountIn (List.head?_eq_getElem? ▸ hfirst), ← hback]
  rw [List.getLast?_eq_getElem?] at hlast
  obtain ⟨n, hn⟩ : ∃ n, path.steps.length = n + 1 :=
    Nat.exists_eq_succ_of_ne_zero fun hzero => by
      rw [List.length_eq_zero_iff.mp hzero] at hlast
      cases hlast
  rw [hn, Nat.add_sub_cancel] at hlast
  rw [hn] at hexec
  obtain ⟨⟨token, amount⟩, u, hhops, hhop⟩ := exec_bind.mp hexec
  obtain ⟨-, htoken, -⟩ := exec_swapHops_path h hamount (by omega) hhops
  obtain rfl := htoken _ hlast
  exact (exec_swapHop (h.get hlast).toPairStep (toQuoterParams_pools amountIn hlast)
    (toQuoterParams_poolVersions amountIn hlast) (toQuoterParams_fees amountIn hlast) hhop).1

/-- **A completed path** returns what its steps give, and has turned what went in into that. -/
theorem books_executeSwapPath {provider : UInt8} (h : ConstantProductPath pairs s.2 path.steps)
    (hclosed : ClosedPath path) (hamount : amountIn.toNat < 2 ^ 112)
    (hexec : Exec (Market.answers dep pairs)
      (executeSwapPath dep ((path.toQuoterParams amountIn).toSwapParams provider)
        (path.toQuoterParams amountIn).startToken amountIn) s out t) :
    t.1 = s.1 ∧ out = s.2.pathOut path.steps amountIn ∧ ∀ token,
      (t.2.balance token).toNat + held (path.toQuoterParams amountIn).startToken amountIn token =
        (s.2.balance token).toNat + held (path.toQuoterParams amountIn).startToken out token := by
  obtain ⟨cur, u, hhops, rfl, rfl⟩ := exec_bind.mp hexec
  have hlength : ((path.toQuoterParams amountIn).toSwapParams provider).pools.length =
      path.steps.length := by
    simp [SwapPath.toQuoterParams, QuoterParams.toSwapParams]
  rw [hlength] at hhops
  obtain ⟨hstore, hbooks⟩ := books_swapHops h hamount (Nat.le_refl _) hhops
  have hvalue := (exec_swapHops_path h hamount (Nat.le_refl _) hhops).1
  rw [List.take_length] at hvalue
  rw [exec_swapHops_closed h hclosed hamount hhops] at hbooks
  exact ⟨hstore, hvalue, hbooks⟩

end Market

/-! ## Among lenders -/

section Asks

variable {dep : Deployment}

theorem asks_swapV2Pair (pair tokenIn tokenOut : Address) (amountIn fee : U256) :
    (swapV2Pair dep pair tokenIn tokenOut amountIn fee).Asks Query.Plain := by
  refine asks_bind (asks_call trivial) fun _ => asks_bind (asks_call trivial) fun _ =>
    asks_bind (asks_ofOption _) fun _ => asks_bind (asks_call trivial) fun _ =>
      asks_bind (asks_call trivial) fun _ => asks_bind ?_ fun _ =>
        asks_bind (asks_call trivial) fun _ => asks_ofOption _
  unfold callPairSwap
  split <;> exact asks_call trivial

/-- A hop through a pair asks nothing of a lender. -/
theorem asks_swapHop {arb : SwapParams} (hversions : ∀ version ∈ arb.poolVersions, version = 0)
    (i : Nat) (cur : Address × U256) : (swapHop dep arb i cur).Asks Query.Plain := by
  refine asks_bind (asks_ofOption _) fun pool => ?_
  refine asks_ofOption_bind fun version hversion => ?_
  obtain rfl := hversions version (List.mem_of_getElem? hversion)
  refine asks_bind (asks_call trivial) fun _ => asks_bind ?_ fun _ =>
    asks_bind (asks_swapV2Pair _ _ _ _ _) fun _ => trivial
  split
  · exact asks_call trivial
  · trivial

theorem asks_executeSwapPath {arb : SwapParams}
    (hversions : ∀ version ∈ arb.poolVersions, version = 0) (token : Address) (amount : U256) :
    (executeSwapPath dep arb token amount).Asks Query.Plain := by
  refine asks_bind ?_ fun _ => trivial
  generalize arb.pools.length = n
  induction n with
  | zero => trivial
  | succ n ih => exact asks_bind ih fun _ => asks_swapHop hversions n _

end Asks

section Loans

variable {dep : Deployment} {loans : Loans} {s t : Storage × LoanMarket} {path : SwapPath}
  {amountIn out : U256} {completes : Call → Storage × LoanMarket → Storage × LoanMarket → Prop}

theorem answers_plain (s : Storage × LoanMarket) (q : Query) (a : q.Answer)
    (t : Storage × LoanMarket) (hq : q.Plain) :
    loans.answers dep completes s q a t ↔
      ∃ m, Market.answers dep loans.toPairs (s.1, LoanMarket.part.get s.2) q a (t.1, m) ∧
        t.2 = LoanMarket.part.put s.2 m := by
  cases q <;> first | exact Iff.rfl | exact hq.elim

theorem versions_of_path {m : Market} (h : ConstantProductPath loans.toPairs m path.steps)
    (provider : UInt8) :
    ∀ version ∈ ((path.toQuoterParams amountIn).toSwapParams provider).poolVersions,
      version = 0 := by
  intro version hversion
  obtain ⟨step, hstep, rfl⟩ := List.mem_map.mp hversion
  exact (h.step step hstep).version

/-- A completed path among lenders is one of the market, and touches no allowance. -/
theorem books_path {provider : UInt8}
    (h : ConstantProductPath loans.toPairs s.2.toMarket path.steps) (hclosed : ClosedPath path)
    (hamount : amountIn.toNat < 2 ^ 112)
    (hexec : Exec (loans.answers dep completes)
      (executeSwapPath dep ((path.toQuoterParams amountIn).toSwapParams provider)
        (path.toQuoterParams amountIn).startToken amountIn) s out t) :
    t.1 = s.1 ∧ t.2.allowance = s.2.allowance ∧
      out = s.2.pathOut path.steps amountIn ∧ ∀ token,
        (t.2.balance token).toNat + held (path.toQuoterParams amountIn).startToken amountIn token =
          (s.2.balance token).toNat +
            held (path.toQuoterParams amountIn).startToken out token := by
  obtain ⟨m, hmarket, hput⟩ := (exec_part_iff LoanMarket.part answers_plain
    (asks_executeSwapPath (versions_of_path h provider) _ _)).mp hexec
  obtain ⟨hstore, hvalue, hbooks⟩ := books_executeSwapPath h hclosed hamount hmarket
  rw [hput]
  exact ⟨hstore, rfl, hvalue, hbooks⟩

/-! ## Loans -/

theorem lent_balance {token : Address} {amount : U256} {m m' : LoanMarket}
    (h : LoanMarket.Lent token amount m m') (other : Address) :
    (m'.balance other).toNat = (m.balance other).toNat + held token amount other := by
  obtain ⟨hroom, rfl⟩ := h
  unfold LoanMarket.credit held
  by_cases hother : other = token
  · subst hother
    simp only [if_true]
    exact toNat_add_of_lt hroom
  · simp only [if_neg hother, Nat.add_zero]

theorem lent_reserves {token : Address} {amount : U256} {m m' : LoanMarket}
    (h : LoanMarket.Lent token amount m m') : m'.reserves = m.reserves := by
  rw [h.2]
  rfl

theorem drawn_balance {token spender : Address} {amount : U256} {m m' : LoanMarket}
    (h : LoanMarket.Drawn token spender amount m m') (other : Address) :
    (m'.balance other).toNat + held token amount other = (m.balance other).toNat := by
  obtain ⟨hbalance, -, rfl⟩ := h
  exact toNat_debit m.toMarket hbalance other

theorem ConstantProductPath.congr {pairs : Pairs} {m m' : Market} {steps : List SwapStep}
    (h : ConstantProductPath pairs m steps) (hreserves : m'.reserves = m.reserves) :
    ConstantProductPath pairs m' steps :=
  { h with step := fun step hstep => (h.step step hstep).congr (congrFun hreserves _) }

theorem pathOut_congr {m m' : Market} (hreserves : m'.reserves = m.reserves)
    (steps : List SwapStep) (amount : U256) : m'.pathOut steps amount = m.pathOut steps amount := by
  unfold Market.pathOut
  congr 1
  funext amount step
  simp only [Market.stepOut, hreserves]

/-- An approval moves no balance. -/
theorem exec_safeApprove_loans {token spender : Address} {amount : U256} {x : Unit}
    (h : Exec (loans.answers dep completes) (safeApprove dep token spender amount) s x t) :
    t.1 = s.1 ∧ t.2.toMarket = s.2.toMarket := by
  obtain ⟨current, u, hcurrent, _, v, hzero, happrove⟩ := by
    simpa only [safeApprove, exec_bind] using h
  have hu : u = s := by
    split at hcurrent
    · exact (exec_pure.mp hcurrent).2
    · exact (exec_call.mp hcurrent).2.2
  obtain ⟨-, rfl⟩ := exec_require.mp hzero
  rw [exec_call.mp happrove, hu]
  exact ⟨rfl, rfl⟩

theorem exec_resetApprove_loans {token spender : Address} {amount : U256} {x : Unit}
    (h : Exec (loans.answers dep completes) (resetApprove dep token spender amount) s x t) :
    t.1 = s.1 ∧ t.2.toMarket = s.2.toMarket := by
  obtain ⟨_, u, hfirst, hsecond⟩ := exec_bind.mp h
  obtain ⟨hstore, hmarket⟩ := exec_safeApprove_loans hfirst
  obtain ⟨hstore', hmarket'⟩ := exec_safeApprove_loans hsecond
  exact ⟨hstore'.trans hstore, hmarket'.trans hmarket⟩

/-- **A loan of `flashLoanSimple`**: what the callback leaves is what came in and what the path
gives less what went in. -/
theorem books_executeOperation {provider : UInt8} {msg : Msg} {premium : U256} {x : Unit}
    (h : ConstantProductPath loans.toPairs s.2.toMarket path.steps) (hclosed : ClosedPath path)
    (hamount : amountIn.toNat < 2 ^ 112) {params : Bytes}
    (hdata : ∀ arb, SwapParams.decode params = some arb →
      arb = (path.toQuoterParams amountIn).toSwapParams provider)
    (hidle : s.1.aaveLiquidationPending = false)
    (hexec : Exec (loans.answers dep completes)
      (executeOperation dep msg (path.toQuoterParams amountIn).startToken amountIn premium dep.self
        params) s x t) :
    t.1 = s.1 ∧ amountIn.toNat + premium.toNat ≤ (s.2.pathOut path.steps amountIn).toNat ∧ ∀ token,
      (t.2.balance token).toNat + held (path.toQuoterParams amountIn).startToken amountIn token =
        (s.2.balance token).toNat + held (path.toQuoterParams amountIn).startToken
          (s.2.pathOut path.steps amountIn) token := by
  simp only [executeOperation, exec_bind, exec_require, exec_get, exec_ofOption, add] at hexec
  obtain ⟨_, _, ⟨-, rfl⟩, st, _, ⟨rfl, rfl⟩, _, _, ⟨-, rfl⟩, _, _, ⟨-, rfl⟩, repay, _,
    ⟨hrepay, rfl⟩, hbody⟩ := hexec
  rw [hidle, if_neg Bool.false_ne_true] at hbody
  simp only [exec_bind, exec_ofOption, exec_require] at hbody
  obtain ⟨arb, _, ⟨hdecode, rfl⟩, amountOut, u, hpath, _, _, ⟨hcovers, rfl⟩, happrove⟩ := hbody
  obtain rfl := hdata arb hdecode
  obtain ⟨hstore, -, rfl, hbooks⟩ := books_path h hclosed hamount hpath
  obtain ⟨hstore', hmarket⟩ := exec_resetApprove_loans happrove
  have hsum := checkedAdd_eq_some.mp hrepay
  rw [hmarket]
  exact ⟨hstore'.trans hstore, hsum ▸ BitVec.le_def.mp hcovers, hbooks⟩

/-- **A loan of a pool**: the same, and the pool is sent the amount and both fees. -/
theorem books_uniswapV3FlashCallback {provider : UInt8} {msg : Msg} {pool : Address}
    {fee0 fee1 : U256} {data : Bytes} {x : Unit}
    (h : ConstantProductPath loans.toPairs s.2.toMarket path.steps) (hclosed : ClosedPath path)
    (hamount : amountIn.toNat < 2 ^ 112)
    (hdata : ∀ out, SwapParams.decodeFlash data = some out →
      out = ((path.toQuoterParams amountIn).toSwapParams provider, pool,
        (path.toQuoterParams amountIn).startToken))
    (hexec : Exec (loans.answers dep completes)
      (uniswapV3FlashCallback dep msg fee0 fee1 data) s x t) :
    t.1 = s.1 ∧ ∃ repay : U256, repay.toNat = amountIn.toNat + fee0.toNat + fee1.toNat ∧
      repay.toNat ≤ (s.2.pathOut path.steps amountIn).toNat ∧
      ∀ token, (t.2.balance token).toNat +
          held (path.toQuoterParams amountIn).startToken repay token +
          held (path.toQuoterParams amountIn).startToken amountIn token =
        (s.2.balance token).toNat + held (path.toQuoterParams amountIn).startToken
          (s.2.pathOut path.steps amountIn) token := by
  simp only [uniswapV3FlashCallback, exec_bind, exec_require, exec_get, exec_ofOption, add] at hexec
  obtain ⟨⟨arb, flashPool, startToken⟩, _, ⟨hdecode, rfl⟩, _, _, ⟨-, rfl⟩, st, _, ⟨rfl, rfl⟩, _, _,
    ⟨-, rfl⟩, amountOut, u, hpath, withFee0, _, ⟨hfee0, rfl⟩, repay, _, ⟨hfee1, rfl⟩, _, _,
    ⟨hcovers, rfl⟩, htransfer⟩ := hexec
  obtain ⟨rfl, rfl, rfl⟩ : arb = _ ∧ flashPool = _ ∧ startToken = _ := by
    simpa only [Prod.mk.injEq] using hdata _ hdecode
  obtain ⟨hstore, -, rfl, hbooks⟩ := books_path h hclosed hamount hpath
  obtain ⟨m, ⟨-, hbalance, hmarket⟩, hput⟩ :=
    (answers_plain _ (.transfer _ _ repay) () _ trivial).mp (exec_call.mp htransfer)
  obtain ⟨hstore', rfl⟩ := Prod.mk.inj hmarket
  have hfirst : withFee0.toNat = amountIn.toNat + fee0.toNat := checkedAdd_eq_some.mp hfee0
  have hsecond := checkedAdd_eq_some.mp hfee1
  refine ⟨hstore'.trans hstore, repay, by omega, BitVec.le_def.mp hcovers, fun token => ?_⟩
  have hbook := hbooks token
  have hdebit := toNat_debit _ hbalance token
  have hlast : t.2.balance token = _ := congrArg (fun m : LoanMarket => m.balance token) hput
  rw [hlast]
  exact (congrArg (· + _) hdebit).trans hbook

/-! ## The arbitrage -/

/-- Two amounts that differ in one token only. -/
theorem earned_of_books {token : Address} {amountOut : U256} {cost : Nat} {m m' : Market}
    (h : ∀ other, (m'.balance other).toNat + held token amountIn other +
        (if other = token then cost else 0) =
      (m.balance other).toNat + held token amountOut other) :
    Earned token amountIn amountOut cost m m' where
  gain := by
    have hself := h token
    rw [held_self, held_self, if_pos rfl] at hself
    exact hself
  rest other hother := by
    have hsame := h other
    rw [held_of_ne hother, held_of_ne hother, if_neg hother] at hsame
    exact BitVec.eq_of_toNat_eq hsame

theorem exec_token0_loans {pool token : Address}
    (h : Exec (loans.answers dep completes) (V2ArbBot.call (.token0 pool)) s token t) :
    token = loans.token0 pool ∧ t = s := by
  obtain ⟨m, ⟨htoken, hstate⟩, hput⟩ := exec_call.mp h
  obtain ⟨hstore, rfl⟩ := Prod.mk.inj hstate
  exact ⟨htoken, Prod.ext hstore hput⟩

theorem exec_token1_loans {pool token : Address}
    (h : Exec (loans.answers dep completes) (V2ArbBot.call (.token1 pool)) s token t) :
    token = loans.token1 pool ∧ t = s := by
  obtain ⟨m, ⟨htoken, hstate⟩, hput⟩ := exec_call.mp h
  obtain ⟨hstore, rfl⟩ := Prod.mk.inj hstate
  exact ⟨htoken, Prod.ext hstore hput⟩

theorem exec_balanceOf_loans {token holder : Address} {balance : U256}
    (h : Exec (loans.answers dep completes) (V2ArbBot.call (.balanceOf token holder)) s balance t) :
    t = s := by
  obtain ⟨m, ⟨-, -, hstate⟩, hput⟩ := exec_call.mp h
  obtain ⟨hstore, rfl⟩ := Prod.mk.inj hstate
  exact Prod.ext hstore hput

/-- A pool lends the start token alone. -/
theorem held_pool {pool token : Address} {amount : U256}
    (hsome : 0 < (if token = loans.token0 pool then amount else 0) ∨
      0 < if token = loans.token1 pool then amount else 0) (other : Address) :
    held (loans.token0 pool) (if token = loans.token0 pool then amount else 0) other +
        held (loans.token1 pool) (if token = loans.token1 pool then amount else 0) other =
      held token amount other := by
  have hzero : ∀ a, held a (0 : U256) other = 0 := fun a => by
    unfold held
    split <;> rfl
  have hne := loans.distinct pool
  by_cases h0 : token = loans.token0 pool
  · subst h0
    rw [if_pos rfl, if_neg hne, hzero, Nat.add_zero]
  · by_cases h1 : token = loans.token1 pool
    · subst h1
      rw [if_neg h0, if_pos rfl, hzero, Nat.zero_add]
    · rw [if_neg h0, if_neg h1] at hsome
      exact absurd hsome (not_or.mpr ⟨BitVec.not_lt_zero, BitVec.not_lt_zero⟩)

/-- What its two loans make of the market. -/
theorem lent_pool {pool token : Address} {amount : U256} {m l l' : LoanMarket}
    (hsome : 0 < (if token = loans.token0 pool then amount else 0) ∨
      0 < if token = loans.token1 pool then amount else 0)
    (hfirst : LoanMarket.Lent (loans.token0 pool) (if token = loans.token0 pool then amount else 0)
      m l)
    (hsecond : LoanMarket.Lent (loans.token1 pool) (if token = loans.token1 pool then amount else 0)
      l l') :
    l'.reserves = m.reserves ∧
      ∀ other, (l'.balance other).toNat = (m.balance other).toNat + held token amount other := by
  refine ⟨(lent_reserves hsecond).trans (lent_reserves hfirst), fun other => ?_⟩
  rw [lent_balance hsecond, lent_balance hfirst, Nat.add_assoc]
  exact congrArg _ (held_pool hsome other)

/-- What pays back an amount at a cost. -/
theorem held_repay {token : Address} {amount repay : U256} {cost : Nat}
    (hrepay : repay.toNat = amount.toNat + cost) (other : Address) :
    held token repay other = held token amount other + if other = token then cost else 0 := by
  unfold held
  split
  · exact hrepay
  · rfl

/-- What an arbitrage does once its start token is known. -/
def arbitrageOn (dep : Deployment) (arb : SwapParams) (startToken : Address) (st : Storage) :
    V2ArbBot.Bot Unit :=
  if arb.flashLoanProvider = 0 then do
    require (st.aavePool ≠ 0)
    require (st.allowedFlashAssets startToken)
    V2ArbBot.call (.flashLoanSimple st.aavePool dep.self startToken arb.amountIn arb.encode)
  else if arb.flashLoanProvider = 1 then do
    require (st.uniV3FlashPool ≠ 0)
    executeArbWithFlashPool dep st.uniV3FlashPool startToken arb
  else if arb.flashLoanProvider = 2 then do
    require (st.pancakeV3FlashPool ≠ 0)
    executeArbWithFlashPool dep st.pancakeV3FlashPool startToken arb
  else do
    let balance ← V2ArbBot.call (.balanceOf startToken dep.self)
    require (arb.amountIn ≤ balance)
    let amountOut ← executeSwapPath dep arb startToken arb.amountIn
    require (arb.amountIn < amountOut)

/-- The checks before it, when the parameters name the start token. -/
theorem exec_executeArbitrage {msg : Msg} {arb : SwapParams} (hstart : arb.startToken ≠ 0)
    {x : Unit} :
    Exec (loans.answers dep completes) (executeArbitrage dep msg arb) s x t ↔
      msg.sender = dep.owner ∧ 0 < arb.pools.length ∧
        arb.pools.length = arb.poolVersions.length ∧
        Exec (loans.answers dep completes) (arbitrageOn dep arb arb.startToken s.1) s x t := by
  constructor
  · intro h
    simp only [executeArbitrage, onlyOwner, exec_bind, exec_require, exec_get] at h
    obtain ⟨_, u, ⟨howner, rfl⟩, _, v, ⟨hpools, rfl⟩, _, w, ⟨hlengths, rfl⟩, token, y, htoken, st, z,
      ⟨rfl, rfl⟩, hbody⟩ := h
    rw [if_pos hstart] at htoken
    obtain ⟨rfl, rfl⟩ := exec_pure.mp htoken
    exact ⟨howner, hpools, hlengths, hbody⟩
  · rintro ⟨howner, hpools, hlengths, hbody⟩
    refine exec_bind.mpr ⟨(), s, exec_require.mpr ⟨howner, rfl⟩, exec_bind.mpr ⟨(), s,
      exec_require.mpr ⟨hpools, rfl⟩, exec_bind.mpr ⟨(), s, exec_require.mpr ⟨hlengths, rfl⟩,
      exec_bind.mpr ⟨arb.startToken, s, ?_, hbody⟩⟩⟩⟩
    rw [if_pos hstart]
    exact exec_pure.mpr ⟨rfl, rfl⟩

section Arbitrage

variable {provider : UInt8} {n : Nat} {x : Unit}
  (h : ConstantProductPath loans.toPairs s.2.toMarket path.steps) (hclosed : ClosedPath path)
  (hamount : amountIn.toNat < 2 ^ 112)
  (hfits : ((path.toQuoterParams amountIn).toSwapParams provider).Fits)

include h hclosed hamount hfits

theorem earned_executeArbWithFlashPool {pool : Address}
    (hexec : Exec (loans.answers dep (loans.completes dep n))
      (executeArbWithFlashPool dep pool (path.toQuoterParams amountIn).startToken
        ((path.toQuoterParams amountIn).toSwapParams provider)) s x t) :
    t.1 = s.1 ∧
      amountIn.toNat + loans.poolCost pool (path.toQuoterParams amountIn).startToken amountIn
        ≤ (s.2.pathOut path.steps amountIn).toNat ∧
      Earned (path.toQuoterParams amountIn).startToken amountIn (s.2.pathOut path.steps amountIn)
        (loans.poolCost pool (path.toQuoterParams amountIn).startToken amountIn)
        s.2.toMarket t.2.toMarket := by
  have hdata := fun out => @SwapParams.eq_of_decodeFlash _ pool
    (path.toQuoterParams amountIn).startToken out hfits
  revert hexec hdata
  generalize hparams : ((path.toQuoterParams amountIn).toSwapParams provider).encodeFlash pool
    (path.toQuoterParams amountIn).startToken = params
  intro hexec hdata
  simp only [executeArbWithFlashPool, exec_bind, exec_require] at hexec
  obtain ⟨token0, u, h0, token1, v, h1, _, w, ⟨hsome, hw⟩, hflash⟩ := hexec
  obtain ⟨rfl, hu⟩ := exec_token0_loans h0
  obtain ⟨rfl, hv⟩ := exec_token1_loans h1
  rw [hw, hv, hu, hparams] at hflash
  obtain ⟨-, -, l, l', msg, hfirst, hsecond, -, hcalled⟩ := exec_call.mp hflash
  cases n with
  | zero => exact hcalled.elim
  | succ n =>
    obtain ⟨hreserves, hlent⟩ := lent_pool hsome hfirst hsecond
    obtain ⟨hstore, repay, hrepay, hcovers, hbooks⟩ :=
      books_uniswapV3FlashCallback (s := (s.1, l')) (h.congr hreserves) hclosed hamount hdata hcalled
    rw [show (s.1, l').2.pathOut path.steps amountIn = s.2.pathOut path.steps amountIn from
      pathOut_congr hreserves _ _] at hcovers hbooks
    have hcost : repay.toNat = amountIn.toNat +
        loans.poolCost pool (path.toQuoterParams amountIn).startToken amountIn :=
      hrepay.trans (Nat.add_assoc _ _ _)
    rw [hcost] at hcovers
    refine ⟨hstore, hcovers, earned_of_books fun other => ?_⟩
    have hbook := hbooks other
    have hlent' : (l'.balance other).toNat = (s.2.balance other).toNat +
        held (path.toQuoterParams amountIn).startToken amountIn other := hlent other
    have hback := @held_repay (path.toQuoterParams amountIn).startToken _ _ _ hcost other
    dsimp only at hbook
    omega

theorem earned_flashLoanSimple {pool : Address} (hidle : s.1.aaveLiquidationPending = false)
    (hexec : Exec (loans.answers dep (loans.completes dep n))
      (V2ArbBot.call (.flashLoanSimple pool dep.self (path.toQuoterParams amountIn).startToken
        amountIn ((path.toQuoterParams amountIn).toSwapParams provider).encode)) s x t) :
    t.1 = s.1 ∧
      amountIn.toNat + (loans.premium (path.toQuoterParams amountIn).startToken amountIn).toNat
        ≤ (s.2.pathOut path.steps amountIn).toNat ∧
      Earned (path.toQuoterParams amountIn).startToken amountIn (s.2.pathOut path.steps amountIn)
        (loans.premium (path.toQuoterParams amountIn).startToken amountIn).toNat
        s.2.toMarket t.2.toMarket := by
  obtain ⟨-, -, l, msg, u, hlent, -, hcalled, hstore, hdrawn⟩ := exec_call.mp hexec
  cases n with
  | zero => exact hcalled.elim
  | succ n =>
    have hreserves : l.reserves = s.2.reserves := lent_reserves hlent
    obtain ⟨hstore', hcovers, hbooks⟩ := books_executeOperation (s := (s.1, l)) (h.congr hreserves)
      hclosed hamount (fun _ => SwapParams.eq_of_decode hfits) hidle hcalled
    rw [show (s.1, l).2.pathOut path.steps amountIn = s.2.pathOut path.steps amountIn from
      pathOut_congr hreserves _ _] at hcovers hbooks
    refine ⟨hstore.trans hstore', hcovers, earned_of_books fun other => ?_⟩
    have hbook := hbooks other
    have hlent' := lent_balance hlent other
    have hback := drawn_balance hdrawn other
    have hrepay := @held_repay (path.toQuoterParams amountIn).startToken _ _ _
      (toNat_add_of_lt (hcovers.trans_lt (BitVec.isLt _))) other
    dsimp only at hbook
    omega

/-- **What an arbitrage earns**: when it completes, by whichever loan or none, over a path of pairs
that comes back to its start token, what the path gives covers it, this balance has changed by
exactly that less what went in and what the loan costs, and no other balance and nothing in the
storage has. -/
theorem earned_executeArbitrage {msg : Msg} (hidle : s.1.aaveLiquidationPending = false)
    (hstart : (path.toQuoterParams amountIn).startToken ≠ 0)
    (hexec : loans.completes dep (n + 1)
      ⟨msg, .executeArbitrage ((path.toQuoterParams amountIn).toSwapParams provider)⟩ s t) :
    t.1 = s.1 ∧
      Loans.Covers provider amountIn (s.2.pathOut path.steps amountIn)
        (loans.cost s.1 provider (path.toQuoterParams amountIn).startToken amountIn) ∧
      Earned (path.toQuoterParams amountIn).startToken amountIn (s.2.pathOut path.steps amountIn)
        (loans.cost s.1 provider (path.toQuoterParams amountIn).startToken amountIn)
        s.2.toMarket t.2.toMarket := by
  obtain ⟨-, -, -, hbody⟩ := (exec_executeArbitrage hstart).mp
    (show Exec _ (executeArbitrage dep msg _) s () t from hexec)
  unfold arbitrageOn at hbody
  unfold Loans.cost Loans.Covers
  rw [show ((path.toQuoterParams amountIn).toSwapParams provider).flashLoanProvider = provider from
    rfl] at hbody
  by_cases h0 : provider = 0
  · rw [if_pos h0] at hbody
    rw [if_pos h0, if_pos (.inl h0)]
    obtain ⟨_, v, hpool, _, w, hallowed, hloan⟩ := by simpa only [exec_bind] using hbody
    rw [(exec_require.mp hallowed).2, (exec_require.mp hpool).2] at hloan
    exact earned_flashLoanSimple h hclosed hamount hfits hidle hloan
  · rw [if_neg h0] at hbody ⊢
    by_cases h1 : provider = 1
    · rw [if_pos h1] at hbody
      rw [if_pos h1, if_pos (.inr (.inl h1))]
      obtain ⟨_, v, hpool, hloan⟩ := exec_bind.mp hbody
      rw [(exec_require.mp hpool).2] at hloan
      exact earned_executeArbWithFlashPool h hclosed hamount hfits hloan
    · rw [if_neg h1] at hbody ⊢
      by_cases h2 : provider = 2
      · rw [if_pos h2] at hbody
        rw [if_pos h2, if_pos (.inr (.inr h2))]
        obtain ⟨_, v, hpool, hloan⟩ := exec_bind.mp hbody
        rw [(exec_require.mp hpool).2] at hloan
        exact earned_executeArbWithFlashPool h hclosed hamount hfits hloan
      · rw [if_neg h2] at hbody
        rw [if_neg h2, if_neg (not_or.mpr ⟨h0, not_or.mpr ⟨h1, h2⟩⟩)]
        obtain ⟨balance, v, hbalance, _, w, hheld, out, z, hpath, hprofit⟩ := by
          simpa only [exec_bind] using hbody
        rw [(exec_require.mp hheld).2, exec_balanceOf_loans hbalance] at hpath
        obtain ⟨hstore, -, rfl, hbooks⟩ := books_path h hclosed hamount hpath
        obtain ⟨hmore, hlast⟩ := exec_require.mp hprofit
        rw [hlast]
        refine ⟨hstore, BitVec.lt_def.mp hmore, earned_of_books fun other => ?_⟩
        rw [ite_self, Nat.add_zero]
        exact hbooks other

end Arbitrage

end Loans

end ArbBot
