import ArbBot.Contracts.Venues
import ArbBot.Lib.Flow
import ArbBot.Laws.Contracts.Params

/-!
# What a path takes and gives

Each swap among plain venues is an exchange of its input for the output it returns, and a path is an
exchange of the first input for the last output. In which token that output is depends on the pools
alone.
-/

namespace ArbBot

open Lib Lib.Prog V2ArbBot

namespace V2ArbBot

/-- What has left and entered the bot's account, by token. -/
abbrev Moved (s t : World) (out inn : Address → ℕ) : Prop :=
  Flow s.2.holdings t.2.holdings out inn

/-- An amount of one token. -/
abbrev only (token : Address) (amount : U256) : Address → ℕ := Pi.single token amount.toNat

variable {l l' : Ledger} {token spender : Address} {amount : U256}

theorem flow_debit (h : amount ≤ l.balance token) :
    Flow l.holdings (l.debit token amount).holdings (only token amount) 0 := by
  funext other
  by_cases hother : other = token
  · subst hother
    simp [Ledger.holdings, Ledger.debit, BitVec.toNat_sub_of_le h, BitVec.le_def.mp h]
  · simp [Ledger.holdings, Ledger.debit, hother, Pi.single_eq_of_ne]

theorem flow_credited (h : Credited token amount l l') :
    Flow l.holdings l'.holdings 0 (only token amount) := by
  obtain ⟨hfit, rfl⟩ := h
  funext other
  by_cases hother : other = token
  · subst hother
    have hsum : (l.balance other + amount).toNat = (l.balance other).toNat + amount.toNat :=
      toNat_add_of_lt hfit
    simp [Ledger.holdings, Ledger.credit, hsum]
  · simp [Ledger.holdings, Ledger.credit, hother, Pi.single_eq_of_ne]

theorem flow_drawn (h : Drawn token spender amount l l') :
    Flow l.holdings l'.holdings (only token amount) 0 := by
  obtain ⟨hle, -, rfl⟩ := h
  exact flow_debit hle

end V2ArbBot

namespace Venues

variable {dep : Deployment} {v : Venues} {completes : Call → World → World → Prop} {s t : World}

/-- The token that a pool gives for another is another. -/
theorem next_ne (v : Venues) (token pool : Address) : token ≠ v.next token pool := by
  unfold next
  split
  · rename_i h
    rw [h]
    exact v.distinct pool
  · assumption

/-! ## Tokens -/

theorem moved_transfer {token recipient : Address} {amount : U256} (hself : recipient ≠ dep.self)
    (h : v.answers dep completes s (.transfer token recipient amount) () t) :
    t.1 = s.1 ∧ Moved s t (only token amount) 0 := by
  obtain ⟨hle, rfl⟩ := h
  rw [if_neg hself]
  exact ⟨rfl, flow_debit hle⟩

theorem holdings_safeApprove {token spender : Address} {amount : U256}
    (h : Exec (v.answers dep completes) (safeApprove dep token spender amount) s () t) :
    t.2.holdings = s.2.holdings := by
  simp only [safeApprove, exec_bind, exec_require, exec_call] at h
  obtain ⟨current, u, hread, _, _, ⟨-, rfl⟩, rfl⟩ := h
  split at hread
  · obtain ⟨-, rfl⟩ := hread
    rfl
  · obtain ⟨-, -, rfl⟩ := exec_call.mp hread
    rfl

theorem holdings_resetApprove {token spender : Address} {amount : U256}
    (h : Exec (v.answers dep completes) (resetApprove dep token spender amount) s () t) :
    t.2.holdings = s.2.holdings := by
  obtain ⟨_, u, hzero, hset⟩ := exec_bind.mp h
  rw [holdings_safeApprove hset, holdings_safeApprove hzero]

/-! ## Swaps -/

/-- The output measured by the balances is the one that was paid. -/
theorem moved_measured {tokenIn tokenOut : Address} {amountIn paid out : U256}
    (h : Moved s t (only tokenIn amountIn) (only tokenOut paid)) (hne : tokenIn ≠ tokenOut)
    (hout : checkedSub (t.2.balance tokenOut) (s.2.balance tokenOut) = some out) :
    Moved s t (only tokenIn amountIn) (only tokenOut out) := by
  have hgain : (t.2.balance tokenOut).toNat = (s.2.balance tokenOut).toNat + paid.toNat :=
    h.gain hne
  have hsub := checkedSub_eq_some.mp hout
  obtain rfl : out = paid := BitVec.eq_of_toNat_eq (by omega)
  exact h

theorem moved_callPairSwap {pair tokenIn : Address} {amountOut : U256}
    (h : Exec (v.answers dep completes)
      (callPairSwap dep pair (decide (tokenIn = v.token0 pair)) amountOut) s () t) :
    pair ≠ dep.self ∧ Moved s t 0 (only (v.next tokenIn pair) amountOut) := by
  rw [callPairSwap] at h
  by_cases hside : tokenIn = v.token0 pair
  · rw [if_pos (decide_eq_true hside)] at h
    obtain ⟨hself, -, -, -, l, hnone, hpaid⟩ := exec_call.mp h
    have hflow := (flow_credited hnone).trans (flow_credited hpaid)
    refine ⟨hself, ?_⟩
    simpa [Moved, next, hside, only] using hflow
  · rw [if_neg (by simpa using hside)] at h
    obtain ⟨hself, -, -, -, l, hpaid, hnone⟩ := exec_call.mp h
    have hflow := (flow_credited hpaid).trans (flow_credited hnone)
    refine ⟨hself, ?_⟩
    simpa [Moved, next, hside, only] using hflow

theorem moved_swapV2Pair {pair tokenIn : Address} {amountIn fee out : U256}
    (h : Exec (v.answers dep completes)
      (swapV2Pair dep pair tokenIn (v.next tokenIn pair) amountIn fee) s out t) :
    Moved s t (only tokenIn amountIn) (only (v.next tokenIn pair) out) := by
  simp only [swapV2Pair, sub, exec_bind, exec_call, exec_ofOption] at h
  obtain ⟨reserves, _, ⟨hself, rfl⟩, _, _, ⟨-, rfl, rfl⟩, expected, _, ⟨-, rfl⟩, before, _,
    ⟨-, rfl, rfl⟩, _, u, hsent, _, w, hswap, after, _, ⟨-, rfl, rfl⟩, hout, rfl⟩ := h
  obtain ⟨-, hin⟩ := moved_transfer hself hsent
  obtain ⟨-, hpaid⟩ := moved_callPairSwap hswap
  have hflow := hin.trans hpaid
  rw [add_zero, zero_add] at hflow
  exact moved_measured hflow (v.next_ne _ _) hout

theorem moved_swapSolidlyStablePair {pair tokenIn : Address} {amountIn fee out : U256}
    (h : Exec (v.answers dep completes)
      (swapSolidlyStablePair dep pair tokenIn (v.next tokenIn pair) amountIn fee) s out t) :
    Moved s t (only tokenIn amountIn) (only (v.next tokenIn pair) out) := by
  simp only [swapSolidlyStablePair, exec_bind, exec_call, exec_ofOption, exec_require] at h
  obtain ⟨reserves, _, ⟨hself, rfl⟩, _, _, ⟨-, rfl, rfl⟩, dIn, _, rfl, dOut, _, rfl, afterFee, _,
    ⟨-, rfl⟩, expected, _, ⟨-, rfl⟩, _, _, ⟨-, rfl⟩, _, u, hsent, _, w, hswap, rfl, rfl⟩ := h
  obtain ⟨-, hin⟩ := moved_transfer hself hsent
  obtain ⟨-, hpaid⟩ := moved_callPairSwap hswap
  have hflow := hin.trans hpaid
  rw [add_zero, zero_add] at hflow
  exact hflow

/-- What a pool pays out is no input of its own. -/
theorem not_slt_neg {amount : U256} (h : amount.toNat < 2 ^ 255) :
    (0 : U256).slt (-amount) = false := by
  have hamount : amount.toInt = amount.toNat := BitVec.toInt_eq_toNat_of_lt (by omega)
  have hneg : (-amount).toInt = -(amount.toNat : Int) := by
    rw [BitVec.toInt_neg, hamount]
    exact Int.bmod_eq_of_le (by omega) (by omega)
  simp [BitVec.slt, hneg]

/-- Of the two amounts of a swap, the positive one is the input. -/
theorem input_of_deltas {zeroForOne : Bool} {amount paid : U256} (hpos : (0 : U256).slt amount)
    (hsmall : paid.toNat < 2 ^ 255) {deltas : U256 × U256}
    (hdeltas : deltas = if zeroForOne then (amount, -paid) else (-paid, amount)) :
    (if (0 : U256).slt deltas.1 then deltas.1 else deltas.2) = amount := by
  subst hdeltas
  cases zeroForOne with
  | true => exact if_pos hpos
  | false =>
    have hout : ¬ (0 : U256).slt (-paid) = true := by rw [not_slt_neg hsmall]; exact nofun
    exact if_neg hout

/-- A callback pays the pool its input, in the token that the swap named. -/
theorem moved_paySwap {armed : Storage → Address} {msg : Msg} {tokenIn : Address}
    {amount named amount0Delta amount1Delta : U256} (hself : msg.sender ≠ dep.self)
    (hinput : (if (0 : U256).slt amount0Delta then amount0Delta else amount1Delta) = amount)
    (h : Exec (v.answers dep completes)
      (paySwap armed msg amount0Delta amount1Delta (Abi.encodeTokenAmount tokenIn named)) s () t) :
    Moved s t (only tokenIn amount) 0 := by
  rw [paySwap, exec_get_bind, Abi.decodeTokenAmount_encodeTokenAmount] at h
  obtain ⟨_, _, hslot, hrest⟩ := exec_bind.mp h
  obtain ⟨-, rfl⟩ := exec_require.mp hslot
  obtain ⟨_, _, hdata, hpay⟩ := exec_bind.mp hrest
  obtain ⟨heq, rfl⟩ := exec_ofOption.mp hdata
  obtain rfl := Option.some.inj heq
  have hsent := exec_call.mp hpay
  rw [hinput] at hsent
  exact (moved_transfer hself hsent).2

/-- The callbacks of a swap pay. -/
def Pays (dep : Deployment) (completes : Call → World → World → Prop) : Prop :=
  ∀ {s t : World} {msg : Msg} {entry : Entry} {tokenIn : Address}
    {amount named amount0Delta amount1Delta : U256}, msg.sender ≠ dep.self →
    (if (0 : U256).slt amount0Delta then amount0Delta else amount1Delta) = amount →
    IsSwapCallback amount0Delta amount1Delta (Abi.encodeTokenAmount tokenIn named) entry →
    completes ⟨msg, entry⟩ s t → Moved s t (only tokenIn amount) 0

theorem pays_completes : ∀ n, Pays dep (v.completes dep n) := by
  intro n
  cases n with
  | zero =>
    intro _ _ _ _ _ _ _ _ _ _ _ _ h
    exact h.elim
  | succ n =>
    intro s t msg entry tokenIn amount named amount0Delta amount1Delta hself hinput hcallback h
    rcases hcallback with rfl | rfl | rfl
    · exact moved_paySwap hself hinput h
    · exact moved_paySwap hself hinput h
    · exact moved_paySwap hself hinput h

theorem moved_swapPool (hpays : Pays dep completes) {arm : Address → Storage → Storage}
    {pool tokenIn : Address} {amountIn out : U256}
    (h : Exec (v.answers dep completes)
      (swapPool dep arm pool tokenIn (v.next tokenIn pool) amountIn) s out t) :
    Moved s t (only tokenIn amountIn) (only (v.next tokenIn pool) out) := by
  simp only [swapPool, sub, exec_bind, exec_call, exec_update, exec_ofOption] at h
  obtain ⟨before, s, ⟨-, rfl, rfl⟩, _, _, rfl, _, _, ⟨-, rfl, rfl⟩, deltas, u, hswap, _, _, rfl,
    after, _, ⟨-, rfl, rfl⟩, hout, rfl⟩ := h
  obtain ⟨hself, -, hpos, paid, l, msg, callback, hsmall, hdeltas, hpaid, rfl, hcallback,
    hexec⟩ := hswap
  have hside : (if decide (tokenIn = v.token0 msg.sender) then v.token1 msg.sender
      else v.token0 msg.sender) = v.next tokenIn msg.sender := by simp [next]
  rw [hside] at hpaid
  have hinput := input_of_deltas hpos hsmall hdeltas
  have hin : Flow l.holdings u.2.holdings (only tokenIn amountIn) 0 := by
    exact hpays hself hinput hcallback hexec
  have hflow := (flow_credited hpaid).trans hin
  rw [add_zero, zero_add] at hflow
  exact moved_measured hflow (v.next_ne _ _) hout

/-! ## Paths -/

/-- A hop is an exchange for the next token. -/
theorem moved_swapHop (hpays : Pays dep completes) {arb : SwapParams} {i : Nat}
    {cur out : Address × U256}
    (h : Exec (v.answers dep completes) (swapHop dep arb i cur) s out t) :
    ∃ pool, arb.pools[i]? = some pool ∧ out.1 = v.next cur.1 pool ∧
      Moved s t (only cur.1 cur.2) (only out.1 out.2) := by
  simp only [swapHop, exec_bind, exec_call, exec_ofOption] at h
  obtain ⟨pool, _, ⟨hpool, rfl⟩, version, _, ⟨-, rfl⟩, t0, s, ⟨-, rfl, rfl⟩, token, u, htoken,
    amount, w, hswap, rfl, rfl⟩ := h
  have hnext : token = v.next cur.1 pool ∧ u = s := by
    rw [next]
    split at htoken
    · rename_i hside
      obtain ⟨-, rfl, rfl⟩ := exec_call.mp htoken
      exact ⟨(if_pos hside).symm, rfl⟩
    · rename_i hside
      obtain ⟨rfl, rfl⟩ := exec_pure.mp htoken
      exact ⟨(if_neg hside).symm, rfl⟩
  obtain ⟨rfl, rfl⟩ := hnext
  refine ⟨pool, hpool, rfl, ?_⟩
  rw [swapByVersion] at hswap
  split at hswap
  · exact moved_swapV2Pair hswap
  split at hswap
  · exact moved_swapPool hpays hswap
  split at hswap
  · exact moved_swapPool hpays hswap
  split at hswap
  · exact moved_swapSolidlyStablePair hswap
  · exact hswap.elim

/-- The hops up to any place are an exchange: what one gives the next takes. -/
theorem moved_swapHops (hpays : Pays dep completes) {arb : SwapParams} {token : Address}
    {amount : U256} :
    ∀ n {out : Address × U256} {t : World},
      Exec (v.answers dep completes) (swapHops dep arb token amount n) s out t →
      n ≤ arb.pools.length ∧ out.1 = v.endToken token (arb.pools.take n) ∧
        Moved s t (only token amount) (only out.1 out.2) := by
  intro n
  induction n with
  | zero =>
    rintro out t ⟨rfl, rfl⟩
    exact ⟨Nat.zero_le _, rfl, .refl _ _⟩
  | succ n ih =>
    intro out t h
    obtain ⟨cur, u, hbefore, hhop⟩ := exec_bind.mp h
    obtain ⟨-, hcur, hflow⟩ := ih hbefore
    obtain ⟨pool, hpool, hout, hexchange⟩ := moved_swapHop hpays hhop
    obtain ⟨hn, rfl⟩ := List.getElem?_eq_some_iff.mp hpool
    refine ⟨hn, ?_, hflow.through hexchange⟩
    rw [hout, hcur, endToken, endToken, List.take_succ_eq_append_getElem hn, List.foldl_append]
    rfl

/-- **A path is an exchange** of what it starts with for what it returns, in the token that its
pools lead to. -/
theorem moved_executeSwapPath (hpays : Pays dep completes) {arb : SwapParams} {token : Address}
    {amount out : U256}
    (h : Exec (v.answers dep completes) (executeSwapPath dep arb token amount) s out t) :
    Moved s t (only token amount) (only (v.endToken token arb.pools) out) := by
  obtain ⟨cur, u, hhops, rfl, rfl⟩ := exec_bind.mp h
  obtain ⟨-, hcur, hflow⟩ := moved_swapHops hpays _ hhops
  rw [List.take_length] at hcur
  exact hcur ▸ hflow

end Venues

end ArbBot
