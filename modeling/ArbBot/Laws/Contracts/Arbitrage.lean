import ArbBot.Laws.Contracts.Loans

/-!
# Arbitrages that complete

The bot can complete every arbitrage over a path of pairs that covers what it was lent: whichever
lender its parameters name, nothing in the contract turns it down. With what a completed one earns
(`earned_executeArbitrage`) this says when an arbitrage completes at all.
-/

namespace ArbBot

open Lib Lib.Prog V2ArbBot

namespace Loans

/-- A pool of the token, other than the bot, that is asked for some of it. -/
structure PoolLends (loans : Loans) (dep : Deployment) (pool token : Address) (amount : U256) :
    Prop where
  configured : pool ≠ 0
  foreign : pool ≠ dep.self
  token : token = loans.token0 pool ∨ token = loans.token1 pool
  some : 0 < amount

/-- The lender the parameters name lends the amount, or the bot has it. -/
def Lends (loans : Loans) (dep : Deployment) (s : Storage × LoanMarket) (provider : UInt8)
    (token : Address) (amount : U256) : Prop :=
  if provider = 0 then
    s.1.aavePool ≠ 0 ∧ s.1.aavePool ≠ dep.self ∧ s.1.allowedFlashAssets token = true
  else if provider = 1 then loans.PoolLends dep s.1.uniV3FlashPool token amount
  else if provider = 2 then loans.PoolLends dep s.1.pancakeV3FlashPool token amount
  else amount ≤ s.2.balance token

end Loans

section

variable {dep : Deployment} {loans : Loans} {s t : Storage × LoanMarket} {path : SwapPath}
  {amountIn : U256} {provider : UInt8}
  {completes : Call → Storage × LoanMarket → Storage × LoanMarket → Prop}

/-- The path can be completed among lenders, and at its end the bot holds what it gives. -/
theorem exists_exec_path (dep : Deployment) (provider : UInt8)
    (completes : Call → Storage × LoanMarket → Storage × LoanMarket → Prop)
    (h : ConstantProductPath loans.toPairs s.2.toMarket path.steps)
    (hclosed : ClosedPath path) (hamount : amountIn.toNat < 2 ^ 112)
    (hself : ∀ step ∈ path.steps, step.poolAddress ≠ dep.self)
    (hbalance : amountIn ≤ s.2.balance (path.toQuoterParams amountIn).startToken)
    (hroom : ∀ token, (s.2.balance token).toNat + path.steps.length * 2 ^ 112 < 2 ^ 256) :
    ∃ t, Exec (loans.answers dep completes)
      (executeSwapPath dep ((path.toQuoterParams amountIn).toSwapParams provider)
        (path.toQuoterParams amountIn).startToken amountIn) s
      (s.2.pathOut path.steps amountIn) t ∧
      s.2.pathOut path.steps amountIn ≤ t.2.balance (path.toQuoterParams amountIn).startToken := by
  obtain ⟨u, hmarket⟩ := exists_exec_executeSwapPath (s := (s.1, s.2.toMarket)) dep provider h
    hamount hself hbalance hroom
  have hexec : Exec (loans.answers dep completes)
      (executeSwapPath dep ((path.toQuoterParams amountIn).toSwapParams provider)
        (path.toQuoterParams amountIn).startToken amountIn) s (s.2.pathOut path.steps amountIn)
        (u.1, LoanMarket.part.put s.2 u.2) :=
    (exec_part_iff LoanMarket.part answers_plain
      (asks_executeSwapPath (versions_of_path h provider) _ _)).mpr ⟨u.2, hmarket, rfl⟩
  refine ⟨_, hexec, ?_⟩
  have hbook := (books_path h hclosed hamount hexec).2.2.2
    (path.toQuoterParams amountIn).startToken
  rw [held_self, held_self] at hbook
  have hle := BitVec.le_def.mp hbalance
  rw [BitVec.le_def]
  omega

theorem exec_balanceOf_of (token : Address) :
    Exec (loans.answers dep completes) (V2ArbBot.call (.balanceOf token dep.self)) s
      (s.2.balance token) s :=
  exec_call.mpr ⟨s.2.toMarket, ⟨rfl, rfl, rfl⟩, rfl⟩

/-! ## Allowances -/

theorem exec_safeApprove_of {token spender : Address} {amount : U256}
    (hzero : s.2.allowance token spender = 0) :
    Exec (loans.answers dep completes) (safeApprove dep token spender amount) s ()
      (s.1, s.2.approve token spender amount) := by
  refine exec_bind.mpr ⟨0, s, ?_, exec_bind.mpr ⟨(), s, exec_require.mpr ⟨rfl, rfl⟩,
    exec_call.mpr rfl⟩⟩
  split
  · exact exec_pure.mpr ⟨rfl, rfl⟩
  · exact exec_call.mpr ⟨rfl, hzero.symm, rfl⟩

/-- Whatever was allowed before, the amount is afterwards. -/
theorem exec_resetApprove_of (token spender : Address) (amount : U256) :
    Exec (loans.answers dep completes) (resetApprove dep token spender amount) s ()
      (s.1, (s.2.approve token spender 0).approve token spender amount) := by
  have hzero : ((s.2.approve token spender 0).allowance token spender : U256) = 0 :=
    if_pos ⟨rfl, rfl⟩
  refine exec_bind.mpr ⟨(), (s.1, s.2.approve token spender 0), ?_, exec_safeApprove_of hzero⟩
  refine exec_bind.mpr ⟨0, s, ?_, exec_bind.mpr ⟨(), s, exec_require.mpr ⟨rfl, rfl⟩,
    exec_call.mpr rfl⟩⟩
  rw [if_pos rfl]
  exact exec_pure.mpr ⟨rfl, rfl⟩

/-! ## Callbacks -/

section Completion

variable (completes) (h : ConstantProductPath loans.toPairs s.2.toMarket path.steps)
  (hclosed : ClosedPath path) (hamount : amountIn.toNat < 2 ^ 112)
  (hself : ∀ step ∈ path.steps, step.poolAddress ≠ dep.self)

include h hclosed hamount hself

/-- The callback of `flashLoanSimple` completes with the allowance for what is owed. -/
theorem exists_executeOperation (msg : Msg) {premium : U256} {params : Bytes}
    (hbalance : amountIn ≤ s.2.balance (path.toQuoterParams amountIn).startToken)
    (hroom : ∀ token, (s.2.balance token).toNat + path.steps.length * 2 ^ 112 < 2 ^ 256)
    (hdata : SwapParams.decode params = some ((path.toQuoterParams amountIn).toSwapParams provider))
    (hsender : s.1.aavePool ≠ 0 ∧ msg.sender = s.1.aavePool)
    (hallowed : s.1.allowedFlashAssets (path.toQuoterParams amountIn).startToken = true)
    (hidle : s.1.aaveLiquidationPending = false)
    (hcovers : amountIn.toNat + premium.toNat ≤ (s.2.pathOut path.steps amountIn).toNat) :
    ∃ t, Exec (loans.answers dep completes)
      (executeOperation dep msg (path.toQuoterParams amountIn).startToken amountIn premium dep.self
        params) s () t ∧
      amountIn + premium ≤ t.2.balance (path.toQuoterParams amountIn).startToken ∧
      t.2.allowance (path.toQuoterParams amountIn).startToken msg.sender = amountIn + premium := by
  obtain ⟨u, hpath, hheld⟩ := exists_exec_path dep provider completes h hclosed hamount hself
    hbalance hroom
  have hsum : (amountIn + premium).toNat = amountIn.toNat + premium.toNat :=
    toNat_add_of_lt (hcovers.trans_lt (BitVec.isLt _))
  have hle : amountIn + premium ≤ s.2.pathOut path.steps amountIn := by
    rw [BitVec.le_def, hsum]
    exact hcovers
  refine ⟨(u.1, (u.2.approve (path.toQuoterParams amountIn).startToken msg.sender 0).approve
    (path.toQuoterParams amountIn).startToken msg.sender (amountIn + premium)), ?_,
    BitVec.le_trans hle hheld, if_pos ⟨rfl, rfl⟩⟩
  simp only [executeOperation, exec_bind, exec_require, exec_get, exec_ofOption, add]
  refine ⟨(), s, ⟨trivial, rfl⟩, s.1, s, ⟨rfl, rfl⟩, (), s, ⟨hsender, rfl⟩, (), s, ⟨hallowed, rfl⟩,
    amountIn + premium, s, ⟨checkedAdd_eq_some.mpr hsum, rfl⟩, ?_⟩
  rw [hidle, if_neg Bool.false_ne_true]
  simp only [exec_bind, exec_ofOption, exec_require]
  exact ⟨_, s, ⟨hdata, rfl⟩, _, u, hpath, (), u, ⟨hle, rfl⟩, exec_resetApprove_of _ _ _⟩

/-- The callback of a pool completes with the pool paid. -/
theorem exists_uniswapV3FlashCallback (msg : Msg) {pool : Address} {fee0 fee1 : U256} {data : Bytes}
    (hbalance : amountIn ≤ s.2.balance (path.toQuoterParams amountIn).startToken)
    (hroom : ∀ token, (s.2.balance token).toNat + path.steps.length * 2 ^ 112 < 2 ^ 256)
    (hdata : SwapParams.decodeFlash data =
      some ((path.toQuoterParams amountIn).toSwapParams provider, pool,
        (path.toQuoterParams amountIn).startToken))
    (hsender : msg.sender = pool) (hforeign : pool ≠ dep.self)
    (hpool : pool = s.1.uniV3FlashPool ∨ pool = s.1.pancakeV3FlashPool)
    (hcovers : amountIn.toNat + (fee0.toNat + fee1.toNat) ≤
      (s.2.pathOut path.steps amountIn).toNat) :
    ∃ t, Exec (loans.answers dep completes)
      (uniswapV3FlashCallback dep msg fee0 fee1 data) s () t := by
  obtain ⟨u, hpath, hheld⟩ := exists_exec_path dep provider completes h hclosed hamount hself
    hbalance hroom
  have hlt := BitVec.isLt (s.2.pathOut path.steps amountIn)
  have hfirst : (amountIn + fee0).toNat = amountIn.toNat + fee0.toNat :=
    toNat_add_of_lt (by omega)
  have hsum : (amountIn + fee0 + fee1).toNat = (amountIn + fee0).toNat + fee1.toNat :=
    toNat_add_of_lt (by omega)
  have hle : amountIn + fee0 + fee1 ≤ s.2.pathOut path.steps amountIn := by
    rw [BitVec.le_def]
    omega
  refine ⟨(u.1, LoanMarket.part.put u.2
    (u.2.toMarket.debit (path.toQuoterParams amountIn).startToken (amountIn + fee0 + fee1))), ?_⟩
  simp only [uniswapV3FlashCallback, exec_bind, exec_require, exec_get, exec_ofOption, add]
  refine ⟨_, s, ⟨hdata, rfl⟩, (), s, ⟨hsender, rfl⟩, s.1, s, ⟨rfl, rfl⟩, (), s, ⟨hpool, rfl⟩, _, u,
    hpath, _, u, ⟨checkedAdd_eq_some.mpr hfirst, rfl⟩, _, u, ⟨checkedAdd_eq_some.mpr hsum, rfl⟩, (),
    u, ⟨hle, rfl⟩, exec_call.mpr ⟨_, ⟨hforeign, ?_, rfl⟩, rfl⟩⟩
  exact BitVec.le_trans hle hheld

/-! ## Loans -/

variable (hfits : ((path.toQuoterParams amountIn).toSwapParams provider).Fits)
  (hshort : ((path.toQuoterParams amountIn).toSwapParams provider).Short)
  (hroom : ∀ token, (s.2.balance token).toNat + (path.steps.length + 1) * 2 ^ 112 < 2 ^ 256)

include hroom

omit h hclosed hself in
/-- What is left for the path when an amount has been lent. -/
theorem room_of_lent {l : LoanMarket} {token : Address}
    (hlent : ∀ other,
      (l.balance other).toNat = (s.2.balance other).toNat + held token amountIn other) :
    amountIn ≤ l.balance token ∧
      ∀ other, (l.balance other).toNat + path.steps.length * 2 ^ 112 < 2 ^ 256 := by
  have hself := hlent token
  rw [held_self] at hself
  refine ⟨by rw [BitVec.le_def]; omega, fun other => ?_⟩
  have hother := hlent other
  have hleft := hroom other
  have hsmall : held token amountIn other < 2 ^ 112 := by
    unfold held
    split
    · exact hamount
    · exact Nat.two_pow_pos 112
  rw [Nat.succ_mul] at hleft
  omega

include hfits hshort

theorem exists_flashLoanSimple (hpool : s.1.aavePool ≠ 0) (hforeign : s.1.aavePool ≠ dep.self)
    (hallowed : s.1.allowedFlashAssets (path.toQuoterParams amountIn).startToken = true)
    (hidle : s.1.aaveLiquidationPending = false)
    (hcovers : amountIn.toNat +
        (loans.premium (path.toQuoterParams amountIn).startToken amountIn).toNat ≤
      (s.2.pathOut path.steps amountIn).toNat) :
    ∃ t, Exec (loans.answers dep (loans.completes dep 1))
      (V2ArbBot.call (.flashLoanSimple s.1.aavePool dep.self
        (path.toQuoterParams amountIn).startToken amountIn
        ((path.toQuoterParams amountIn).toSwapParams provider).encode)) s () t := by
  let l := s.2.credit (path.toQuoterParams amountIn).startToken amountIn
  have hlent : LoanMarket.Lent (path.toQuoterParams amountIn).startToken amountIn s.2 l :=
    ⟨by have := hroom (path.toQuoterParams amountIn).startToken; omega, rfl⟩
  obtain ⟨hbalance, hroom'⟩ := room_of_lent hamount hroom (lent_balance hlent)
  obtain ⟨u, hcalled, hheld, hallowance⟩ := exists_executeOperation (s := (s.1, l))
    (loans.completes dep 0) (h.congr (lent_reserves hlent)) hclosed hamount hself
    ⟨s.1.aavePool, 0, 0⟩ hbalance hroom' (SwapParams.decode_encode hfits hshort) ⟨hpool, rfl⟩
    hallowed hidle hcovers
  exact ⟨(u.1, u.2.draw (path.toQuoterParams amountIn).startToken s.1.aavePool (amountIn +
      loans.premium (path.toQuoterParams amountIn).startToken amountIn)),
    exec_call.mpr ⟨hforeign, rfl, l, ⟨s.1.aavePool, 0, 0⟩, u, hlent, rfl, hcalled, rfl, hheld,
      BitVec.le_of_eq hallowance.symm, rfl⟩⟩

omit h hclosed hself hfits hshort in
/-- A pool can lend the start token. -/
theorem exists_lent_pool (pool token : Address) : ∃ l l',
    LoanMarket.Lent (loans.token0 pool) (if token = loans.token0 pool then amountIn else 0) s.2 l ∧
      LoanMarket.Lent (loans.token1 pool) (if token = loans.token1 pool then amountIn else 0)
        l l' := by
  have hsmall : ∀ p : Prop, [Decidable p] → (if p then amountIn else 0).toNat < 2 ^ 112 := by
    intro p _
    split
    · exact hamount
    · exact Nat.two_pow_pos 112
  have hroom0 := hroom (loans.token0 pool)
  have hroom1 := hroom (loans.token1 pool)
  have hamount0 := hsmall (token = loans.token0 pool)
  have hamount1 := hsmall (token = loans.token1 pool)
  have hfirst : LoanMarket.Lent (loans.token0 pool) (if token = loans.token0 pool then amountIn
      else 0) s.2 _ := ⟨by omega, rfl⟩
  refine ⟨_, _, hfirst, ?_, rfl⟩
  rw [lent_balance hfirst, held_of_ne (loans.distinct pool).symm]
  omega

theorem exists_executeArbWithFlashPool {pool : Address}
    (hlends : loans.PoolLends dep pool (path.toQuoterParams amountIn).startToken amountIn)
    (hpool : pool = s.1.uniV3FlashPool ∨ pool = s.1.pancakeV3FlashPool)
    (hcovers : amountIn.toNat +
        loans.poolCost pool (path.toQuoterParams amountIn).startToken amountIn ≤
      (s.2.pathOut path.steps amountIn).toNat) :
    ∃ t, Exec (loans.answers dep (loans.completes dep 1))
      (executeArbWithFlashPool dep pool (path.toQuoterParams amountIn).startToken
        ((path.toQuoterParams amountIn).toSwapParams provider)) s () t := by
  have hsome : 0 < (if (path.toQuoterParams amountIn).startToken = loans.token0 pool then amountIn
      else 0) ∨ 0 < if (path.toQuoterParams amountIn).startToken = loans.token1 pool then amountIn
      else 0 := by
    rcases hlends.token with h0 | h1
    · rw [if_pos h0]
      exact .inl hlends.some
    · rw [if_pos h1]
      exact .inr hlends.some
  obtain ⟨l, l', hfirst, hsecond⟩ :=
    exists_lent_pool hamount hroom pool (path.toQuoterParams amountIn).startToken
  obtain ⟨hreserves, hlent⟩ := lent_pool hsome hfirst hsecond
  obtain ⟨hbalance, hroom'⟩ := room_of_lent hamount hroom hlent
  have hdata := SwapParams.decodeFlash_encodeFlash hfits hshort pool
    (path.toQuoterParams amountIn).startToken
  unfold executeArbWithFlashPool
  revert hdata
  generalize ((path.toQuoterParams amountIn).toSwapParams provider).encodeFlash pool
    (path.toQuoterParams amountIn).startToken = data
  intro hdata
  obtain ⟨t, hcalled⟩ := exists_uniswapV3FlashCallback (s := (s.1, l')) (loans.completes dep 0)
    (h.congr hreserves) hclosed hamount hself ⟨pool, 0, 0⟩ hbalance hroom' hdata rfl hlends.foreign
    hpool (by rw [pathOut_congr hreserves]; exact hcovers)
  refine ⟨t, exec_bind.mpr ⟨_, s, exec_call.mpr ⟨_, ⟨rfl, rfl⟩, rfl⟩, exec_bind.mpr ⟨_, s,
    exec_call.mpr ⟨_, ⟨rfl, rfl⟩, rfl⟩, exec_bind.mpr ⟨(), s, exec_require.mpr ⟨hsome, rfl⟩, ?_⟩⟩⟩⟩
  exact exec_call.mpr ⟨hlends.foreign, rfl, l, l', ⟨pool, 0, 0⟩, hfirst, hsecond, rfl, hcalled⟩

/-- What follows the checks of the arbitrage completes, by whichever loan or none. -/
theorem exists_executeArbitrage {msg : Msg} (howner : msg.sender = dep.owner)
    (hidle : s.1.aaveLiquidationPending = false)
    (hstart : (path.toQuoterParams amountIn).startToken ≠ 0)
    (hlends : loans.Lends dep s provider (path.toQuoterParams amountIn).startToken amountIn)
    (hcovers : Loans.Covers provider amountIn (s.2.pathOut path.steps amountIn)
      (loans.cost s.1 provider (path.toQuoterParams amountIn).startToken amountIn)) :
    ∃ t, loans.completes dep 2
      ⟨msg, .executeArbitrage ((path.toQuoterParams amountIn).toSwapParams provider)⟩ s t := by
  have hpools : 0 < ((path.toQuoterParams amountIn).toSwapParams provider).pools.length := by
    obtain ⟨first, -, hfirst, -⟩ := hclosed
    show 0 < (path.steps.map _).length
    rw [List.length_map]
    exact List.length_pos_of_mem (List.mem_of_head? hfirst)
  have hlengths : ((path.toQuoterParams amountIn).toSwapParams provider).pools.length =
      ((path.toQuoterParams amountIn).toSwapParams provider).poolVersions.length := by
    simp [SwapPath.toQuoterParams, QuoterParams.toSwapParams]
  suffices hbody : ∃ t, Exec (loans.answers dep (loans.completes dep 1))
      (arbitrageOn dep ((path.toQuoterParams amountIn).toSwapParams provider)
        (path.toQuoterParams amountIn).startToken s.1) s () t by
    obtain ⟨t, hbody⟩ := hbody
    exact ⟨t, (exec_executeArbitrage hstart).mpr ⟨howner, hpools, hlengths, hbody⟩⟩
  unfold arbitrageOn
  rw [show ((path.toQuoterParams amountIn).toSwapParams provider).flashLoanProvider = provider from
    rfl]
  unfold Loans.Lends at hlends
  unfold Loans.Covers Loans.cost at hcovers
  by_cases h0 : provider = 0
  · rw [if_pos h0] at hlends ⊢
    rw [if_pos (.inl h0), if_pos h0] at hcovers
    obtain ⟨t, hloan⟩ := exists_flashLoanSimple h hclosed hamount hself hfits hshort hroom hlends.1
      hlends.2.1 hlends.2.2 hidle hcovers
    exact ⟨t, exec_bind.mpr ⟨(), s, exec_require.mpr ⟨hlends.1, rfl⟩, exec_bind.mpr ⟨(), s,
      exec_require.mpr ⟨hlends.2.2, rfl⟩, hloan⟩⟩⟩
  · rw [if_neg h0] at hlends hcovers ⊢
    by_cases h1 : provider = 1
    · rw [if_pos h1] at hlends ⊢
      rw [if_pos (.inr (.inl h1)), if_pos h1] at hcovers
      obtain ⟨t, hloan⟩ := exists_executeArbWithFlashPool h hclosed hamount hself hfits hshort hroom
        hlends (.inl rfl) hcovers
      exact ⟨t, exec_bind.mpr ⟨(), s, exec_require.mpr ⟨hlends.configured, rfl⟩, hloan⟩⟩
    · rw [if_neg h1] at hlends hcovers ⊢
      by_cases h2 : provider = 2
      · rw [if_pos h2] at hlends ⊢
        rw [if_pos (.inr (.inr h2)), if_pos h2] at hcovers
        obtain ⟨t, hloan⟩ := exists_executeArbWithFlashPool h hclosed hamount hself hfits hshort
          hroom hlends (.inr rfl) hcovers
        exact ⟨t, exec_bind.mpr ⟨(), s, exec_require.mpr ⟨hlends.configured, rfl⟩, hloan⟩⟩
      · rw [if_neg h2] at hlends ⊢
        rw [if_neg (not_or.mpr ⟨h0, not_or.mpr ⟨h1, h2⟩⟩)] at hcovers
        have hroom' : ∀ token, (s.2.balance token).toNat + path.steps.length * 2 ^ 112 < 2 ^ 256 :=
          fun token => (Nat.add_le_add_left (Nat.mul_le_mul_right _ (Nat.le_succ _)) _).trans_lt
            (hroom token)
        obtain ⟨t, hpath, -⟩ := exists_exec_path dep provider (loans.completes dep 1) h hclosed
          hamount hself hlends hroom'
        have hmore : amountIn < s.2.pathOut path.steps amountIn := BitVec.lt_def.mpr hcovers
        have hheld : Exec (loans.answers dep (loans.completes dep 1))
            (require (amountIn ≤ s.2.balance (path.toQuoterParams amountIn).startToken)) s () s :=
          exec_require.mpr ⟨hlends, rfl⟩
        have hprofit : Exec (loans.answers dep (loans.completes dep 1))
            (require (amountIn < s.2.pathOut path.steps amountIn)) t () t :=
          exec_require.mpr ⟨hmore, rfl⟩
        exact ⟨t, exec_bind.mpr ⟨_, s, exec_balanceOf_of _, exec_bind.mpr ⟨(), s, hheld,
          exec_bind.mpr ⟨_, t, hpath, hprofit⟩⟩⟩⟩

end Completion

/-! ## The whole condition -/

/-- A pool that has lent the bot some of a token is one that lends it. -/
theorem lends_executeArbWithFlashPool {pool token : Address} {arb : SwapParams} {x : Unit}
    (hpool : pool ≠ 0)
    (hexec : Exec (loans.answers dep completes) (executeArbWithFlashPool dep pool token arb) s x t) :
    loans.PoolLends dep pool token arb.amountIn := by
  obtain ⟨token0, u, h0, token1, v, h1, _, w, hsome, hflash⟩ := by
    simpa only [executeArbWithFlashPool, exec_bind] using hexec
  obtain ⟨rfl, -⟩ := exec_token0_loans h0
  obtain ⟨rfl, -⟩ := exec_token1_loans h1
  obtain ⟨hforeign, -⟩ := exec_call.mp hflash
  have hlent := (exec_require.mp hsome).1
  by_cases ht0 : token = loans.token0 pool
  · rw [if_pos ht0, if_neg (ht0 ▸ loans.distinct pool)] at hlent
    exact ⟨hpool, hforeign, .inl ht0, hlent.resolve_right BitVec.not_lt_zero⟩
  · rw [if_neg ht0] at hlent
    by_cases ht1 : token = loans.token1 pool
    · rw [if_pos ht1] at hlent
      exact ⟨hpool, hforeign, .inr ht1, hlent.resolve_left BitVec.not_lt_zero⟩
    · rw [if_neg ht1, or_self] at hlent
      exact absurd hlent BitVec.not_lt_zero

/-- A completed arbitrage is the owner's, and the lender its parameters name lends the amount. -/
theorem lends_executeArbitrage {msg : Msg} {arb : SwapParams} {n : Nat}
    (hstart : arb.startToken ≠ 0)
    (hexec : loans.completes dep (n + 1) ⟨msg, .executeArbitrage arb⟩ s t) :
    msg.sender = dep.owner ∧
      loans.Lends dep s arb.flashLoanProvider arb.startToken arb.amountIn := by
  obtain ⟨howner, -, -, hbody⟩ := (exec_executeArbitrage hstart).mp
    (show Exec _ (executeArbitrage dep msg _) s () t from hexec)
  refine ⟨howner, ?_⟩
  unfold arbitrageOn at hbody
  unfold Loans.Lends
  by_cases h0 : arb.flashLoanProvider = 0
  · rw [if_pos h0] at hbody ⊢
    obtain ⟨_, u, hpool, _, v, hallowed, hloan⟩ := by simpa only [exec_bind] using hbody
    exact ⟨(exec_require.mp hpool).1, (exec_call.mp hloan).1, (exec_require.mp hallowed).1⟩
  · rw [if_neg h0] at hbody ⊢
    by_cases h1 : arb.flashLoanProvider = 1
    · rw [if_pos h1] at hbody ⊢
      obtain ⟨_, u, hpool, hloan⟩ := exec_bind.mp hbody
      exact lends_executeArbWithFlashPool (exec_require.mp hpool).1 hloan
    · rw [if_neg h1] at hbody ⊢
      by_cases h2 : arb.flashLoanProvider = 2
      · rw [if_pos h2] at hbody ⊢
        obtain ⟨_, u, hpool, hloan⟩ := exec_bind.mp hbody
        exact lends_executeArbWithFlashPool (exec_require.mp hpool).1 hloan
      · rw [if_neg h2] at hbody ⊢
        obtain ⟨balance, u, hbalance, hrest⟩ := exec_bind.mp hbody
        obtain ⟨_, v, hheld, -⟩ := exec_bind.mp hrest
        obtain ⟨m, ⟨-, rfl, -⟩, -⟩ := exec_call.mp hbalance
        exact (exec_require.mp hheld).1

end

/-- The parameters of a path that is not absurdly long can be read from what encodes them. -/
theorem fits_of_path {path : SwapPath} (hlength : path.steps.length < 2 ^ 32) (amountIn : U256)
    (provider : UInt8) :
    ((path.toQuoterParams amountIn).toSwapParams provider).Fits ∧
      ((path.toQuoterParams amountIn).toSwapParams provider).Short := by
  have hpools : ((path.toQuoterParams amountIn).toSwapParams provider).pools.length =
      path.steps.length := List.length_map _
  have hversions : ((path.toQuoterParams amountIn).toSwapParams provider).poolVersions.length =
      path.steps.length := List.length_map _
  have hfees : ((path.toQuoterParams amountIn).toSwapParams provider).fees.length =
      path.steps.length := List.length_map _
  have hfits : path.steps.length < 2 ^ 64 := by omega
  have hshort : 32 * (6 + (path.steps.length + 1) + (path.steps.length + 1)) < 2 ^ 64 := by omega
  refine ⟨⟨by rw [hpools]; exact hfits, by rw [hversions]; exact hfits, by rw [hfees]; exact hfits⟩,
    ?_⟩
  unfold SwapParams.Short
  rw [hpools, hversions]
  exact hshort

/-- **When an arbitrage completes, and what it earns.** Over a path of pairs that comes back to its
start token, an arbitrage can complete exactly when it is the owner's, the lender its parameters
name lends the amount, and what the path gives covers it. However it completes, the balance of the
start token has changed by exactly what the path gives less what went in and what the loan costs,
and no other balance and nothing in the storage has. -/
theorem executeArbitrage_completes_iff (dep : Deployment) (loans : Loans) (st : Storage)
    (m : LoanMarket) (msg : Msg) (path : SwapPath) (amountIn : U256) (provider : UInt8)
    (hpath : ConstantProductPath loans.toPairs m.toMarket path.steps) (hclosed : ClosedPath path)
    (hself : ∀ step ∈ path.steps, step.poolAddress ≠ dep.self)
    (hstart : (path.toQuoterParams amountIn).startToken ≠ 0)
    (hamount : amountIn.toNat < 2 ^ 112)
    (hroom : ∀ token, (m.balance token).toNat + (path.steps.length + 1) * 2 ^ 112 < 2 ^ 256)
    (hlength : path.steps.length < 2 ^ 32) (hidle : st.aaveLiquidationPending = false) :
    let arb := (path.toQuoterParams amountIn).toSwapParams provider
    let amountOut := m.pathOut path.steps amountIn
    let cost := loans.cost st provider arb.startToken amountIn
    ((∃ n t, loans.completes dep n ⟨msg, .executeArbitrage arb⟩ (st, m) t) ↔
      msg.sender = dep.owner ∧ loans.Lends dep (st, m) provider arb.startToken amountIn ∧
        Loans.Covers provider amountIn amountOut cost) ∧
    ∀ n t, loans.completes dep n ⟨msg, .executeArbitrage arb⟩ (st, m) t →
      t.1 = st ∧ Earned arb.startToken amountIn amountOut cost m.toMarket t.2.toMarket := by
  intro arb amountOut cost
  obtain ⟨hfits, hshort⟩ := fits_of_path hlength amountIn provider
  refine ⟨⟨?_, ?_⟩, ?_⟩
  · rintro ⟨n, t, hexec⟩
    cases n with
    | zero => exact hexec.elim
    | succ n =>
      obtain ⟨howner, hlends⟩ := lends_executeArbitrage hstart hexec
      exact ⟨howner, hlends,
        (earned_executeArbitrage hpath hclosed hamount hfits hidle hstart hexec).2.1⟩
  · rintro ⟨howner, hlends, hcovers⟩
    obtain ⟨t, hexec⟩ := exists_executeArbitrage (s := (st, m)) hpath hclosed hamount hself hfits
      hshort hroom howner hidle hstart hlends hcovers
    exact ⟨2, t, hexec⟩
  · intro n t hexec
    cases n with
    | zero => exact hexec.elim
    | succ n =>
      obtain ⟨hstore, -, hearned⟩ :=
        earned_executeArbitrage hpath hclosed hamount hfits hidle hstart hexec
      exact ⟨hstore, hearned⟩

/-- Two pairs that price the second of their tokens differently, and lenders that charge nine and
one in ten thousand. -/
def twoLoans : Loans where
  toPairs := twoPairs
  distinct _ := show (1 : Address) ≠ 2 by decide
  premium _ amount := amount * 9 / 10000
  flashFee _ amount := amount / 10000

def twoLoanMarket : LoanMarket where
  balance _ := 1000
  reserves p := if p = 10 then (1000000, 2000000) else (1000000, 1000000)
  allowance _ _ := 0

theorem reserves_twoLoanMarket (p : Address) :
    (twoLoanMarket.reserves p).1 ≠ 0 ∧ (twoLoanMarket.reserves p).2 ≠ 0 := by
  unfold twoLoanMarket
  dsimp only
  split <;> decide

/-- A round trip on a loan of a hundred times what the bot has, for a premium of 90. -/
theorem executeArbitrage_completes_iff_twoLoans :
    let st := { Storage.initial with aavePool := 50, allowedFlashAssets := fun t => t = 1 }
    let call : Call :=
      ⟨⟨101, 0, 0⟩, .executeArbitrage ((twoHops.toQuoterParams 100000).toSwapParams 0)⟩
    (∃ n t, twoLoans.completes ⟨100, 101, 1⟩ n call (st, twoLoanMarket) t) ∧
    ∀ n t, twoLoans.completes ⟨100, 101, 1⟩ n call (st, twoLoanMarket) t →
      (t.2.balance 1).toNat = 54075 := by
  intro st call
  have hvalue : twoLoanMarket.pathOut twoHops.steps 100000 = 153165 := by decide
  have hroom : ∀ token : Address, (twoLoanMarket.balance token).toNat +
      (twoHops.steps.length + 1) * 2 ^ 112 < 2 ^ 256 := fun _ =>
    show 1000 + 3 * 2 ^ 112 < 2 ^ 256 by decide
  have hpath := constantProductPath_twoHops (fun p => (reserves_twoLoanMarket p).1)
    fun p => (reserves_twoLoanMarket p).2
  obtain ⟨hiff, hearned⟩ := executeArbitrage_completes_iff ⟨100, 101, 1⟩ twoLoans st twoLoanMarket
    ⟨101, 0, 0⟩ twoHops 100000 0 hpath ⟨_, _, rfl, rfl, rfl⟩ (by decide) (by decide) (by decide)
    hroom (by decide) rfl
  rw [hvalue] at hiff hearned
  have hcovers : 100000 + 90 ≤ 153165 := by decide
  refine ⟨hiff.mpr ⟨rfl, ⟨by decide, by decide, rfl⟩, hcovers⟩, fun n t hexec => ?_⟩
  have hgain : (t.2.balance 1).toNat + 100000 + 90 = 1000 + 153165 := (hearned n t hexec).2.gain
  omega

end ArbBot
