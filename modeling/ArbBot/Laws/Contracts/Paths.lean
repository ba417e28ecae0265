import ArbBot.Laws.Contracts.Hops

/-!
# Agreement on constant-product paths

The estimator, the quoter and the bot on one path: a hop of each is the same rule on the same
reserves, so by induction on the hops the three hold the same amount, and the two contracts hold
the token the path says, before every hop.
-/

namespace ArbBot

open Lib Lib.Prog V2ArbBot

variable {pairs : Pairs} {m : Market} {step : SwapStep} {steps : List SwapStep}

/-! ## Parameters -/

section Params

variable {path : SwapPath} {i : Nat} (amountIn : U256)

theorem toQuoterParams_pools (h : path.steps[i]? = some step) :
    (path.toQuoterParams amountIn).pools[i]? = some step.poolAddress := by
  simp [SwapPath.toQuoterParams, h]

theorem toQuoterParams_poolVersions (h : path.steps[i]? = some step) :
    (path.toQuoterParams amountIn).poolVersions[i]? = some step.protocol.toQuoterVersion := by
  simp [SwapPath.toQuoterParams, h]

theorem toQuoterParams_fees (h : path.steps[i]? = some step) :
    (path.toQuoterParams amountIn).fees[i]? = some step.fee := by
  simp [SwapPath.toQuoterParams, h]

theorem toQuoterParams_startToken (h : path.steps[0]? = some step) :
    (path.toQuoterParams amountIn).startToken = step.tokenIn := by
  simp [SwapPath.toQuoterParams, List.head?_eq_getElem?, h]

end Params

/-! ## Paths -/

theorem pathOut_take_succ {n : Nat} {amount : U256} (h : steps[n]? = some step) :
    m.pathOut (steps.take (n + 1)) amount = m.stepOut (m.pathOut (steps.take n) amount) step := by
  rw [Market.pathOut, List.take_add_one, h, List.foldl_append]
  rfl

namespace ConstantProductPath

variable {n : Nat}

theorem get (h : ConstantProductPath pairs m steps) (hget : steps[n]? = some step) :
    ConstantProductStep pairs m step :=
  h.step step (List.mem_of_getElem? hget)

/-- A step sells what the one before bought. -/
theorem tokenOut_eq (h : ConstantProductPath pairs m steps) {next : SwapStep}
    (hget : steps[n]? = some step) (hnext : steps[n + 1]? = some next) :
    step.tokenOut = next.tokenIn := by
  obtain ⟨_, rfl⟩ := List.getElem?_eq_some_iff.mp hget
  obtain ⟨hlt, rfl⟩ := List.getElem?_eq_some_iff.mp hnext
  exact h.chained.getElem n hlt

/-- The pair of a step is none of the pairs before it. -/
theorem not_mem_take (h : ConstantProductPath pairs m steps) (hget : steps[n]? = some step) :
    step.poolAddress ∉ (steps.take n).map (·.poolAddress) := by
  have hdistinct := h.distinct
  rw [← List.take_append_drop n steps, List.map_append, List.nodup_append] at hdistinct
  have hmem : step.poolAddress ∈ (steps.drop n).map (·.poolAddress) := by
    refine List.mem_map_of_mem (List.mem_of_getElem? (i := 0) ?_)
    rw [List.getElem?_drop]
    exact hget
  exact fun hearlier => hdistinct.2.2 _ hearlier _ hmem rfl

/-- Amounts stay of 112 bits along the path. -/
theorem pathOut_lt (h : ConstantProductPath pairs m steps) {amountIn : U256}
    (hamount : amountIn.toNat < 2 ^ 112) (n : Nat) :
    (m.pathOut (steps.take n) amountIn).toNat < 2 ^ 112 := by
  induction n with
  | zero => exact hamount
  | succ n ih =>
    cases hget : steps[n]? with
    | none =>
      rw [List.take_add_one, hget]
      simpa using ih
    | some step =>
      rw [pathOut_take_succ hget]
      exact ((h.get hget).quote_eq ih).2

end ConstantProductPath

variable {path : SwapPath} {amountIn : U256} {n : Nat}

/-- **The quoter along a path**: before hop `n` it holds the token step `n` sells, and the amount
the estimator has after `n` steps. -/
theorem quoteHops_path {view : FlashQuoter.PoolView} (h : ConstantProductPath pairs m path.steps)
    (hview : ∀ step ∈ path.steps, m.Shows pairs view step.poolAddress)
    (hamount : amountIn.toNat < 2 ^ 112) (hn : n ≤ path.steps.length) :
    ∃ token, FlashQuoter.quoteHops view (path.toQuoterParams amountIn) n =
        some (token, m.pathOut (path.steps.take n) amountIn) ∧
      ∀ step, path.steps[n]? = some step → token = step.tokenIn := by
  induction n with
  | zero => exact ⟨_, rfl, fun step hget => toQuoterParams_startToken amountIn hget⟩
  | succ n ih =>
    obtain ⟨token, hhops, htoken⟩ := ih (by omega)
    have hget : path.steps[n]? = some path.steps[n] := List.getElem?_eq_getElem hn
    obtain rfl := htoken _ hget
    have hstep := h.get hget
    refine ⟨path.steps[n].tokenOut, ?_, fun next hnext => h.tokenOut_eq hget hnext⟩
    rw [FlashQuoter.quoteHops, hhops, pathOut_take_succ hget, Option.bind_eq_bind,
      Option.bind_some, quoteHop_step (hview _ (List.getElem_mem hn)) hstep.toPairStep
        (toQuoterParams_pools amountIn hget) (toQuoterParams_poolVersions amountIn hget)
        (toQuoterParams_fees amountIn hget), (hstep.quote_eq (h.pathOut_lt hamount n)).1]
    rfl

/-- **The bot along a path**: when the first `n` hops complete, it holds the token step `n` sells
and the same amount, and no pair further on has been touched. -/
theorem exec_swapHops_path {dep : Deployment} {provider : UInt8} {s t : Storage × Market}
    {cur : Address × U256} (h : ConstantProductPath pairs s.2 path.steps)
    (hamount : amountIn.toNat < 2 ^ 112) (hn : n ≤ path.steps.length)
    (hexec : Exec (Market.answers dep pairs)
      (swapHops dep ((path.toQuoterParams amountIn).toSwapParams provider)
        (path.toQuoterParams amountIn).startToken amountIn n) s cur t) :
    cur.2 = s.2.pathOut (path.steps.take n) amountIn ∧
      (∀ step, path.steps[n]? = some step → cur.1 = step.tokenIn) ∧
      ∀ p, p ∉ (path.steps.take n).map (·.poolAddress) → t.2.reserves p = s.2.reserves p := by
  induction n generalizing cur t with
  | zero =>
    obtain ⟨rfl, rfl⟩ := exec_pure.mp hexec
    exact ⟨rfl, fun step hget => toQuoterParams_startToken amountIn hget, fun _ _ => rfl⟩
  | succ n ih =>
    obtain ⟨⟨token, amount⟩, u, hhops, hhop⟩ := exec_bind.mp hexec
    obtain ⟨hvalue, htoken, hreserves⟩ := ih (by omega) hhops
    have hget : path.steps[n]? = some path.steps[n] := List.getElem?_eq_getElem hn
    obtain rfl := hvalue
    obtain rfl := htoken _ hget
    have hsame := hreserves _ (h.not_mem_take hget)
    have hstep := h.get hget
    obtain ⟨hnext, hquote, hrest⟩ := exec_swapHop hstep.toPairStep
      (toQuoterParams_pools amountIn hget) (toQuoterParams_poolVersions amountIn hget)
      (toQuoterParams_fees amountIn hget) hhop
    rw [quote_congr hsame, (hstep.quote_eq (h.pathOut_lt hamount n)).1] at hquote
    refine ⟨?_, fun next hget' => hnext.trans (h.tokenOut_eq hget hget'), fun p hp => ?_⟩
    · rw [pathOut_take_succ hget]
      exact (Option.some.inj hquote).symm
    · rw [List.take_add_one, hget, List.map_append, List.mem_append, not_or] at hp
      have hne : p ≠ path.steps[n].poolAddress := by simpa using hp.2
      rw [hrest p hne, hreserves p hp.1]

/-! ## Completion -/

section Completion

variable {dep : Deployment} {s : Storage × Market}

theorem exists_exec_swapHops (provider : UInt8) (h : ConstantProductPath pairs s.2 path.steps)
    (hamount : amountIn.toNat < 2 ^ 112) (hself : ∀ step ∈ path.steps, step.poolAddress ≠ dep.self)
    (hbalance : amountIn ≤ s.2.balance (path.toQuoterParams amountIn).startToken)
    (hroom : ∀ token, (s.2.balance token).toNat + path.steps.length * 2 ^ 112 < 2 ^ 256)
    (hn : n ≤ path.steps.length) :
    ∃ cur t, Exec (Market.answers dep pairs)
        (swapHops dep ((path.toQuoterParams amountIn).toSwapParams provider)
          (path.toQuoterParams amountIn).startToken amountIn n) s cur t ∧
      cur.2 ≤ t.2.balance cur.1 ∧
      ∀ token, (t.2.balance token).toNat ≤ (s.2.balance token).toNat + n * 2 ^ 112 := by
  induction n with
  | zero => exact ⟨_, s, exec_pure.mpr ⟨rfl, rfl⟩, hbalance, fun _ => Nat.le_add_right _ _⟩
  | succ n ih =>
    obtain ⟨⟨token, amount⟩, u, hhops, hheld, hbounded⟩ := ih (by omega)
    obtain ⟨hvalue, htoken, hreserves⟩ := exec_swapHops_path h hamount (by omega) hhops
    have hget : path.steps[n]? = some path.steps[n] := List.getElem?_eq_getElem hn
    obtain rfl := hvalue
    obtain rfl := htoken _ hget
    have hstep := (h.get hget).congr (hreserves _ (h.not_mem_take hget))
    obtain ⟨hquote, hout⟩ := hstep.quote_eq (h.pathOut_lt hamount n)
    have hfits : ∀ token, (u.2.balance token).toNat +
        (u.2.stepOut (s.2.pathOut (path.steps.take n) amountIn) path.steps[n]).toNat < 2 ^ 256 := by
      intro token
      have hheld := hbounded token
      have hleft := hroom token
      have hlast : n * 2 ^ 112 + 2 ^ 112 ≤ path.steps.length * 2 ^ 112 := by
        rw [← Nat.succ_mul]
        exact Nat.mul_le_mul_right _ hn
      omega
    refine ⟨_, _, exec_bind.mpr ⟨_, u, hhops, exec_swapHop_of hstep.toPairStep
      (toQuoterParams_pools amountIn hget) (toQuoterParams_poolVersions amountIn hget)
      (toQuoterParams_fees amountIn hget) hquote (hself _ (List.getElem_mem hn)) hheld
      (hfits _)⟩, ?_, fun token => ?_⟩
    · simp only [Market.trade_balance, if_true]
      rw [BitVec.le_def, BitVec.toNat_add, Nat.mod_eq_of_lt (hfits _)]
      exact Nat.le_add_left _ _
    · rw [Nat.succ_mul, ← Nat.add_assoc]
      exact (Market.toNat_trade_balance_le hheld (hfits token)).trans
        (Nat.add_le_add (hbounded token) hout.le)

/-- **The bot can complete** every such path whose start amount it holds, when the pairs swap and
no balance comes near the end of its word. -/
theorem exists_exec_executeSwapPath (dep : Deployment) (provider : UInt8)
    (h : ConstantProductPath pairs s.2 path.steps) (hamount : amountIn.toNat < 2 ^ 112)
    (hself : ∀ step ∈ path.steps, step.poolAddress ≠ dep.self)
    (hbalance : amountIn ≤ s.2.balance (path.toQuoterParams amountIn).startToken)
    (hroom : ∀ token, (s.2.balance token).toNat + path.steps.length * 2 ^ 112 < 2 ^ 256) :
    ∃ t, Exec (Market.answers dep pairs)
      (executeSwapPath dep ((path.toQuoterParams amountIn).toSwapParams provider)
        (path.toQuoterParams amountIn).startToken amountIn) s
      (s.2.pathOut path.steps amountIn) t := by
  obtain ⟨cur, t, hhops, -⟩ :=
    exists_exec_swapHops provider h hamount hself hbalance hroom (Nat.le_refl _)
  have hvalue := (exec_swapHops_path h hamount (Nat.le_refl _) hhops).1
  rw [List.take_length] at hvalue
  have hlength : ((path.toQuoterParams amountIn).toSwapParams provider).pools.length =
      path.steps.length := by
    simp [SwapPath.toQuoterParams, QuoterParams.toSwapParams]
  refine ⟨t, exec_bind.mpr ⟨cur, t, ?_, hvalue.symm, rfl⟩⟩
  rw [hlength]
  exact hhops

end Completion

/-! ## Agreement -/

/-- **Three-way agreement.** On a path of constant-product steps the quoter returns what the
estimator's formula gives step by step, the bot returns the same whenever it completes, and before
every hop both contracts hold the token the step sells. -/
theorem threeWay_agreement (dep : Deployment) (pairs : Pairs) (m : Market)
    (view : FlashQuoter.PoolView) (path : SwapPath) (amountIn : U256) (provider : UInt8)
    (hpath : ConstantProductPath pairs m path.steps)
    (hview : ∀ step ∈ path.steps, m.Shows pairs view step.poolAddress)
    (hamount : amountIn.toNat < 2 ^ 112) :
    let params := path.toQuoterParams amountIn
    let arb := params.toSwapParams provider
    FlashQuoter.getAmountOut view params = some (m.pathOut path.steps amountIn) ∧
    (∀ st out t, Exec (Market.answers dep pairs)
        (executeSwapPath dep arb arb.startToken arb.amountIn) (st, m) out t →
      out = m.pathOut path.steps amountIn) ∧
    ∀ i step, path.steps[i]? = some step →
      (∃ amount, FlashQuoter.quoteHops view params i = some (step.tokenIn, amount)) ∧
      ∀ st cur t, Exec (Market.answers dep pairs)
          (swapHops dep arb arb.startToken arb.amountIn i) (st, m) cur t →
        cur.1 = step.tokenIn := by
  have hlength : (path.toQuoterParams amountIn).pools.length = path.steps.length := by
    simp [SwapPath.toQuoterParams]
  refine ⟨?_, fun st out t hexec => ?_, fun i step hget => ⟨?_, fun st cur t hexec => ?_⟩⟩
  · obtain ⟨token, hhops, -⟩ := quoteHops_path hpath hview hamount (Nat.le_refl _)
    rw [FlashQuoter.getAmountOut, hlength, hhops, List.take_length]
    rfl
  · obtain ⟨cur, u, hhops, hout⟩ := exec_bind.mp hexec
    obtain ⟨rfl, rfl⟩ := exec_pure.mp hout
    have hhops' := exec_swapHops_path (n := path.steps.length) hpath hamount (Nat.le_refl _)
      (hlength ▸ hhops)
    rw [hhops'.1, List.take_length]
  · have hi := (List.getElem?_eq_some_iff.mp hget).1
    obtain ⟨token, hhops, htoken⟩ := quoteHops_path hpath hview hamount hi.le
    exact ⟨_, htoken step hget ▸ hhops⟩
  · have hi := (List.getElem?_eq_some_iff.mp hget).1
    exact (exec_swapHops_path hpath hamount hi.le hexec).2.1 step hget

/-- Two pairs of one pair of tokens, with different prices. -/
def twoPairs : Pairs := ⟨fun _ => 1, fun _ => 2⟩

def twoPairMarket : Market := ⟨fun _ => 1000, fun p => if p = 10 then (1000, 1200) else (1000, 1000)⟩

def twoPairView : FlashQuoter.PoolView where
  token0 := fun p => some (twoPairs.token0 p)
  token1 := fun p => some (twoPairs.token1 p)
  getReserves := fun p => some (twoPairMarket.reserves p)
  slot0 := fun _ => none
  liquidity := fun _ => none
  swap := fun _ _ _ _ => .returned

/-- Out through the one and back through the other. -/
def twoHops : SwapPath := ⟨[⟨10, 1, 2, .uniswapV2, 30⟩, ⟨11, 2, 1, .pancakeSwapV2, 25⟩], 0⟩

theorem constantProductPath_twoHops {m : Market} (h₁ : ∀ p, (m.reserves p).1 ≠ 0)
    (h₂ : ∀ p, (m.reserves p).2 ≠ 0) : ConstantProductPath twoPairs m twoHops.steps := by
  refine ⟨fun step hstep => ?_, by decide, by decide⟩
  rcases List.mem_cons.mp hstep with rfl | hstep
  · exact ⟨⟨rfl, by decide, .inl ⟨rfl, rfl⟩⟩, by decide, h₁ _, h₂ _, by decide⟩
  · obtain rfl := List.mem_singleton.mp hstep
    exact ⟨⟨rfl, by decide, .inr ⟨rfl, rfl⟩⟩, by decide, h₁ _, h₂ _, by decide⟩

theorem reserves_twoPairMarket (p : Address) :
    (twoPairMarket.reserves p).1 ≠ 0 ∧ (twoPairMarket.reserves p).2 ≠ 0 := by
  unfold twoPairMarket
  dsimp only
  split <;> decide

/-- A round trip that both contracts value at 97, which the bot can complete. -/
theorem threeWay_agreement_twoHops :
    let params := twoHops.toQuoterParams 100
    let arb := params.toSwapParams 255
    FlashQuoter.getAmountOut twoPairView params = some 97 ∧
      ∃ t, Exec (Market.answers ⟨100, 101, 1⟩ twoPairs)
        (executeSwapPath ⟨100, 101, 1⟩ arb arb.startToken arb.amountIn)
        (Storage.initial, twoPairMarket) 97 t := by
  have hpath := constantProductPath_twoHops (fun p => (reserves_twoPairMarket p).1)
    fun p => (reserves_twoPairMarket p).2
  have hvalue : twoPairMarket.pathOut twoHops.steps 100 = 97 := by decide
  obtain ⟨hquote, hrun, -⟩ := threeWay_agreement ⟨100, 101, 1⟩ twoPairs twoPairMarket twoPairView
    twoHops 100 255 hpath (fun _ _ => ⟨rfl, rfl, rfl⟩) (by decide)
  have hroom : ∀ token : Address, (twoPairMarket.balance token).toNat +
      twoHops.steps.length * 2 ^ 112 < 2 ^ 256 := fun _ =>
    show 1000 + 2 * 2 ^ 112 < 2 ^ 256 by decide
  obtain ⟨t, hexec⟩ := exists_exec_executeSwapPath ⟨100, 101, 1⟩ 255
    (s := (Storage.initial, twoPairMarket)) hpath (by decide) (by decide)
    (show (100 : U256) ≤ 1000 by decide) hroom
  exact ⟨hvalue ▸ hquote, t, hvalue ▸ hexec⟩

end ArbBot
