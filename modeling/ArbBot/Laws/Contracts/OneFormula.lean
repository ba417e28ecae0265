import ArbBot.Laws.Calculation.Rates
import ArbBot.Laws.Contracts.Paths
import ArbBot.Searcher

/-!
# One formula and one fee per pool

The amount out the estimator computes for a reserve-based pool against the one both contracts
compute for the step made from it. The contracts see version 0 and the fee of the step, and so
always the constant product with the whole fee. The estimator has its own invariant for each kind
of Aerodrome pool, deducts their fee before it applies the invariant, and replaces a fee outside 1
to 100 basis points by the default of the protocol. The kinds of pool on which the two are one
function are exactly those of `OneFormula`.
-/

namespace ArbBot

open Lib Lib.Prog V2ArbBot RateEstimator
open Lib.ConstantProduct (swapOut swapOut_mono swapOut_same swapOut_zero_amount)

/-! ## The contracts' choice -/

/-- The contracts know the pool by the tokens it was loaded with, and its reserves are positive:
with a reserve of zero the estimator has no rate. -/
structure Listed (pairs : Pairs) (m : Market) (pool : RawPool) : Prop where
  token0 : pairs.token0 pool.address = pool.token0
  token1 : pairs.token1 pool.address = pool.token1
  ne : pool.token0 ≠ pool.token1
  reserve0 : (m.reserves pool.address).1 ≠ 0
  reserve1 : (m.reserves pool.address).2 ≠ 0

/-- The estimator's amount for a pool of the market. -/
def estimatorOut (pool : RawPool) (m : Market) (zeroForOne : Bool) (amount : U256) : U256 :=
  reserveAmountOut pool.protocol pool.tickSpacing pool.fee pool.decimals0 pool.decimals1 amount
    ((m.reserves pool.address).1.setWidth 256) ((m.reserves pool.address).2.setWidth 256) zeroForOne

/-- How the estimator's amount out of a pool compares with both contracts', whenever all have one:
for every state of the pool, every amount, and each direction, with the quoter's quote of the step
made from the pool and with the amount of a completed swap by the bot. -/
def Compares (rel : U256 → U256 → Prop) (pool : RawPool) : Prop :=
  ∀ (pairs : Pairs) (m : Market), Listed pairs m pool → ∀ (zeroForOne : Bool) (amount : U256),
    let params := (SwapPath.mk [pool.toStep zeroForOne] 0).toQuoterParams amount
    (∀ view, m.Shows pairs view pool.address → ∀ out,
      FlashQuoter.getAmountOut view params = some out →
        rel (estimatorOut pool m zeroForOne amount) out) ∧
    ∀ dep st provider out t,
      Exec (Market.answers dep pairs)
          (executeSwapPath dep (params.toSwapParams provider) params.startToken amount)
          (st, m) out t →
        rel (estimatorOut pool m zeroForOne amount) out

variable {pairs : Pairs} {m : Market} {pool : RawPool}

theorem PoolProtocol.toQuoterVersion_reserveBased {protocol : PoolProtocol}
    (h : protocol.isReserveBased) : protocol.toQuoterVersion = 0 := by
  cases protocol <;> revert h <;> decide

theorem Listed.pairStep (h : Listed pairs m pool) (hbased : pool.protocol.isReserveBased)
    (zeroForOne : Bool) : PairStep pairs (pool.toStep zeroForOne) := by
  refine ⟨PoolProtocol.toQuoterVersion_reserveBased hbased, ?_, ?_⟩
  · change pairs.token0 pool.address ≠ pairs.token1 pool.address
    rw [h.token0, h.token1]
    exact h.ne
  · cases zeroForOne
    · exact .inr ⟨h.token1.symm, h.token0.symm⟩
    · exact .inl ⟨h.token0.symm, h.token1.symm⟩

/-- The quoter's formula on the reserves, in one direction. -/
def contractOut (fee : UInt32) (r0 r1 : BitVec 112) (zeroForOne : Bool) (amount : U256) :
    Option U256 :=
  FlashQuoter.constantProduct amount ((if zeroForOne then r0 else r1).setWidth 256)
    ((if zeroForOne then r1 else r0).setWidth 256) fee

theorem Listed.quote_eq (h : Listed pairs m pool) (zeroForOne : Bool) (amount : U256) :
    m.quote pairs amount (pool.toStep zeroForOne) =
      contractOut pool.fee (m.reserves pool.address).1 (m.reserves pool.address).2 zeroForOne
        amount := by
  have hdirection : decide ((pool.toStep zeroForOne).tokenIn = pairs.token0 pool.address) =
      zeroForOne := by
    cases zeroForOne
    · simp [RawPool.toStep, h.token0, h.ne.symm]
    · simp [RawPool.toStep, h.token0]
  simp only [Market.quote, contractOut]
  rw [show (pool.toStep zeroForOne).poolAddress = pool.address from rfl, hdirection]
  rfl

/-- **The comparison is one of formulas**: the estimator's and the quoter's, on positive
reserves. -/
theorem compares_of_formulas {rel : U256 → U256 → Prop} (hbased : pool.protocol.isReserveBased)
    (h : ∀ (r0 r1 : BitVec 112) (zeroForOne : Bool) (amount out : U256), r0 ≠ 0 → r1 ≠ 0 →
      contractOut pool.fee r0 r1 zeroForOne amount = some out →
        rel (reserveAmountOut pool.protocol pool.tickSpacing pool.fee pool.decimals0
          pool.decimals1 amount (r0.setWidth 256) (r1.setWidth 256) zeroForOne) out) :
    Compares rel pool := by
  intro pairs m hlisted zeroForOne amount params
  have hstep := hlisted.pairStep hbased zeroForOne
  have hquote := hlisted.quote_eq zeroForOne amount
  refine ⟨fun view hview out hout => ?_, fun dep st provider out t hexec => ?_⟩
  · refine h _ _ zeroForOne amount out hlisted.reserve0 hlisted.reserve1 ?_
    obtain ⟨cur, hhops, rfl⟩ := Option.map_eq_some_iff.mp hout
    have hhop : FlashQuoter.quoteHop view params 0 ((pool.toStep zeroForOne).tokenIn, amount) =
      some cur := hhops
    rw [quoteHop_step hview hstep rfl rfl rfl, hquote] at hhop
    obtain ⟨out, hvalue, rfl⟩ := Option.map_eq_some_iff.mp hhop
    exact hvalue
  · refine h _ _ zeroForOne amount out hlisted.reserve0 hlisted.reserve1 ?_
    obtain ⟨cur, u, hhops, hout⟩ := exec_bind.mp hexec
    obtain ⟨rfl, rfl⟩ := exec_pure.mp hout
    obtain ⟨start, v, hstart, hhop⟩ := exec_bind.mp hhops
    obtain ⟨rfl, rfl⟩ := exec_pure.mp hstart
    rw [← hquote]
    exact (exec_swapHop hstep rfl rfl rfl hhop).2.1

/-- A market of one pool, and what a quote sees of it. -/
def loneMarket (r0 r1 : BitVec 112) : Market := ⟨fun _ => 0, fun _ => (r0, r1)⟩

def RawPool.lonePairs (pool : RawPool) : Pairs := ⟨fun _ => pool.token0, fun _ => pool.token1⟩

def RawPool.loneView (pool : RawPool) (r0 r1 : BitVec 112) : FlashQuoter.PoolView where
  token0 := fun _ => some pool.token0
  token1 := fun _ => some pool.token1
  getReserves := fun _ => some (r0, r1)
  slot0 := fun _ => none
  liquidity := fun _ => none
  swap := fun _ _ _ _ => .returned

/-- One state of the pool on which the formulas differ is enough for the pool to disagree. -/
theorem not_compares_of_formulas (hbased : pool.protocol.isReserveBased)
    (hne : pool.token0 ≠ pool.token1) {r0 r1 : BitVec 112} {zeroForOne : Bool} {amount out : U256}
    (h0 : r0 ≠ 0) (h1 : r1 ≠ 0) (hout : contractOut pool.fee r0 r1 zeroForOne amount = some out)
    (hdiffer : reserveAmountOut pool.protocol pool.tickSpacing pool.fee pool.decimals0
      pool.decimals1 amount (r0.setWidth 256) (r1.setWidth 256) zeroForOne ≠ out) :
    ¬ Compares Eq pool := by
  intro hagrees
  have hlisted : Listed pool.lonePairs (loneMarket r0 r1) pool := ⟨rfl, rfl, hne, h0, h1⟩
  have hshows : (loneMarket r0 r1).Shows pool.lonePairs (pool.loneView r0 r1)
      (pool.toStep zeroForOne).poolAddress := ⟨rfl, rfl, rfl⟩
  have hhop : FlashQuoter.quoteHop (pool.loneView r0 r1)
      ((SwapPath.mk [pool.toStep zeroForOne] 0).toQuoterParams amount) 0
      ((pool.toStep zeroForOne).tokenIn, amount) = _ :=
    quoteHop_step hshows (hlisted.pairStep hbased zeroForOne) rfl rfl rfl
  rw [hlisted.quote_eq] at hhop
  refine hdiffer ((hagrees _ _ hlisted zeroForOne amount).1 _ hshows out ?_)
  exact congrArg (Option.map (·.2)) (hhop.trans (congrArg _ hout))

/-! ## The kinds of pool -/

section Kinds

variable {fee : UInt32} {r0 r1 : BitVec 112} {zeroForOne : Bool} {amount out : U256}

/-- Above 10000 basis points the contracts have no value. -/
theorem fee_le_of_contractOut (h : contractOut fee r0 r1 zeroForOne amount = some out) :
    fee.toNat ≤ 10000 :=
  (FlashQuoter.constantProduct_eq_some.mp h).1

/-- **V2 pools** with a fee the estimator takes over. -/
theorem formulas_v2 {protocol : PoolProtocol} (h : protocol ≠ .aerodrome) (tickSpacing : Int32)
    (decimals0 decimals1 : UInt8) (h1 : 1 ≤ fee.toNat) (h100 : fee.toNat ≤ 100) (h0 : r0 ≠ 0)
    (hr1 : r1 ≠ 0) (hout : contractOut fee r0 r1 zeroForOne amount = some out) :
    reserveAmountOut protocol tickSpacing fee decimals0 decimals1 amount (r0.setWidth 256)
      (r1.setWidth 256) zeroForOne = out := by
  have hfactor := feeFactor_of_csv protocol h1 h100
  rw [reserveAmountOut, if_neg h]
  cases zeroForOne
  · exact getAmountOutV2_eq_of_quote (setWidth_ne_zero hr1) (setWidth_ne_zero h0) hfactor hout
  · exact getAmountOutV2_eq_of_quote (setWidth_ne_zero h0) (setWidth_ne_zero hr1) hfactor hout

/-- The amount an Aerodrome pool is quoted for, once the fee is deducted. -/
def afterFee (amount : U256) (fee : UInt32) : U256 :=
  amount * BitVec.ofNat 256 (10000 - fee.toUInt64).toNat / 10000

theorem reserveAmountOut_volatile {tickSpacing : Int32} (h : tickSpacing ≠ 0)
    (decimals0 decimals1 : UInt8) (h0 : r0 ≠ 0) (h1 : r1 ≠ 0) (hamount : amount ≠ 0) :
    reserveAmountOut .aerodrome tickSpacing fee decimals0 decimals1 amount (r0.setWidth 256)
        (r1.setWidth 256) zeroForOne =
      getAmountOutVolatile (afterFee amount fee) (r0.setWidth 256) (r1.setWidth 256)
        zeroForOne := by
  rw [reserveAmountOut, if_pos rfl, getAmountOutAerodrome,
    if_neg (not_or.mpr ⟨hamount, not_or.mpr ⟨setWidth_ne_zero h0, setWidth_ne_zero h1⟩⟩),
    decide_eq_false h]
  rfl

theorem reserveAmountOut_stable (decimals0 decimals1 : UInt8) (h0 : r0 ≠ 0) (h1 : r1 ≠ 0)
    (hamount : amount ≠ 0) :
    reserveAmountOut .aerodrome 0 fee decimals0 decimals1 amount (r0.setWidth 256)
        (r1.setWidth 256) zeroForOne =
      getAmountOutStable (afterFee amount fee) (r0.setWidth 256) (r1.setWidth 256)
        (pow10 decimals0) (pow10 decimals1) zeroForOne := by
  rw [reserveAmountOut, if_pos rfl, getAmountOutAerodrome,
    if_neg (not_or.mpr ⟨hamount, not_or.mpr ⟨setWidth_ne_zero h0, setWidth_ne_zero h1⟩⟩),
    decide_eq_true rfl]
  rfl

theorem getAmountOutVolatile_zero (reserve0 reserve1 : U256) :
    getAmountOutVolatile 0 reserve0 reserve1 zeroForOne = 0 := by
  simp [getAmountOutVolatile]

theorem toNat_afterFee (hfee : fee.toNat ≤ 10000)
    (hfits : amount.toNat * (10000 - fee.toNat) < 2 ^ 256) :
    (afterFee amount fee).toNat = amount.toNat * (10000 - fee.toNat) / 10000 := by
  rw [afterFee, toNat_complement hfee, BitVec.toNat_udiv, BitVec.toNat_mul,
    toNat_ofNat_of_lt (show 10000 - fee.toNat < 2 ^ 256 by omega), Nat.mod_eq_of_lt hfits]
  rfl

/-- The volatile formula is the constant product without a fee. -/
theorem toNat_getAmountOutVolatile (h0 : r0 ≠ 0) (h1 : r1 ≠ 0)
    (hfits : ProductFits 10000 amount ((if zeroForOne then r0 else r1).setWidth 256)
      ((if zeroForOne then r1 else r0).setWidth 256)) :
    (getAmountOutVolatile amount (r0.setWidth 256) (r1.setWidth 256) zeroForOne).toNat =
      swapOut 1 1 ((if zeroForOne then r0 else r1).setWidth 256 : U256).toNat
        ((if zeroForOne then r1 else r0).setWidth 256 : U256).toNat amount.toNat := by
  have hin : (if zeroForOne then r0 else r1) ≠ 0 := by
    cases zeroForOne
    · exact h1
    · exact h0
  have heq : getAmountOutVolatile amount (r0.setWidth 256) (r1.setWidth 256) zeroForOne =
      if ((if zeroForOne then r0 else r1).setWidth 256 : U256) = 0 then 0
      else amount * (if zeroForOne then r1 else r0).setWidth 256 /
        ((if zeroForOne then r0 else r1).setWidth 256 + amount) := by
    cases zeroForOne
    · rfl
    · rfl
  rw [heq, if_neg (setWidth_ne_zero hin)]
  generalize (if zeroForOne then r0 else r1) = reserveIn at hfits
  generalize (if zeroForOne then r1 else r0) = reserveOut at hfits
  have hnumerator := hfits.numerator
  have hdenominator := hfits.denominator
  have hproduct : (amount * reserveOut.setWidth 256 : U256).toNat =
      amount.toNat * (reserveOut.setWidth 256 : U256).toNat := by
    refine toNat_mul_of_lt ?_
    rw [Nat.mul_right_comm] at hnumerator
    omega
  have hsum : (reserveIn.setWidth 256 + amount : U256).toNat =
      (reserveIn.setWidth 256 : U256).toNat + amount.toNat :=
    toNat_add_of_lt (by omega)
  rw [BitVec.toNat_udiv, hproduct, hsum, swapOut]
  simp only [Nat.mul_one]

/-- **Volatile pools**: the fee is deducted and rounded first, so the estimator is never above the
contracts, and on their amount when the fee is all or nothing. -/
theorem formulas_volatile {tickSpacing : Int32} (h : tickSpacing ≠ 0) (decimals0 decimals1 : UInt8)
    (h0 : r0 ≠ 0) (h1 : r1 ≠ 0) (hout : contractOut fee r0 r1 zeroForOne amount = some out) :
    reserveAmountOut .aerodrome tickSpacing fee decimals0 decimals1 amount (r0.setWidth 256)
        (r1.setWidth 256) zeroForOne ≤ out ∧
      (fee.toNat = 0 ∨ 10000 ≤ fee.toNat →
        reserveAmountOut .aerodrome tickSpacing fee decimals0 decimals1 amount (r0.setWidth 256)
          (r1.setWidth 256) zeroForOne = out) := by
  obtain ⟨hle, hfits, hvalue⟩ := FlashQuoter.constantProduct_eq_some.mp hout
  by_cases hamount : amount = 0
  · subst hamount
    have hzero : out = 0 := BitVec.eq_of_toNat_eq (hvalue.trans swapOut_zero_amount)
    rw [hzero, reserveAmountOut, if_pos rfl, getAmountOutAerodrome, if_pos (.inl rfl)]
    exact ⟨BitVec.le_refl _, fun _ => rfl⟩
  rw [reserveAmountOut_volatile h decimals0 decimals1 h0 h1 hamount]
  have hin : 0 < ((if zeroForOne then r0 else r1).setWidth 256 : U256).toNat := by
    cases zeroForOne
    · exact toNat_setWidth_pos h1
    · exact toNat_setWidth_pos h0
  have hafter := toNat_afterFee hle
    (Nat.lt_of_le_of_lt (Nat.le_add_left _ _) hfits.denominator)
  have hround : (afterFee amount fee).toNat * 10000 ≤ amount.toNat * (10000 - fee.toNat) := by
    rw [hafter]
    exact Nat.div_mul_le_self _ _
  have hestimate := toNat_getAmountOutVolatile h0 h1 (hfits.mono hin hround)
  rw [← swapOut_same (show 0 < 10000 by decide)] at hestimate
  refine ⟨?_, fun hfee => BitVec.eq_of_toNat_eq ?_⟩
  · rw [BitVec.le_def, hestimate, hvalue]
    exact swapOut_mono hround hin (by decide)
  · have hexact : (afterFee amount fee).toNat * 10000 = amount.toNat * (10000 - fee.toNat) := by
      rw [hafter]
      rcases hfee with hfee | hfee
      · rw [hfee]
        exact Nat.div_mul_cancel (Nat.dvd_mul_left _ _)
      · rw [show 10000 - fee.toNat = 0 by omega, Nat.mul_zero, Nat.zero_div, Nat.zero_mul]
    rw [hestimate, hvalue, swapOut, swapOut, hexact]

/-! ## Where they differ

One unit is sold into reserves of one and a million units. -/

theorem contractOut_sample (fee : UInt32) (hfee : fee.toNat ≤ 10000) :
    ∃ out, contractOut fee 1 1000000 true 1 = some out ∧
      out.toNat = (10000 - fee.toNat) * 1000000 / (10000 + (10000 - fee.toNat)) := by
  have hfits : ProductFits (10000 - fee.toNat) 1 ((1 : BitVec 112).setWidth 256)
      ((1000000 : BitVec 112).setWidth 256) :=
    ProductFits.of_112 (by decide) (Nat.sub_le _ _) (by decide) (by decide) (by decide)
  have hlt : (10000 - fee.toNat) * 1000000 / (10000 + (10000 - fee.toNat)) < 2 ^ 256 :=
    Nat.lt_of_le_of_lt (Nat.div_le_self _ _) (by omega)
  refine ⟨.ofNat 256 _, FlashQuoter.constantProduct_eq_some.mpr ⟨hfee, hfits, ?_⟩,
    toNat_ofNat_of_lt hlt⟩
  rw [toNat_ofNat_of_lt hlt, swapOut]
  simp

/-- One unit of an Aerodrome pool is all fee, unless there is no fee. -/
theorem afterFee_one (hfee : 1 ≤ fee.toNat) (hle : fee.toNat ≤ 10000) : afterFee 1 fee = 0 := by
  have hone : (1 : U256).toNat = 1 := rfl
  refine BitVec.eq_of_toNat_eq ((toNat_afterFee hle ?_).trans ?_)
  · rw [hone]
    omega
  · rw [hone, Nat.one_mul]
    exact Nat.div_eq_of_lt (by omega)

theorem getAmountOutV2_sample (protocol : PoolProtocol) :
    499248 ≤ (getAmountOutV2 1 1 1000000 protocol.v2FeeFactor).toNat ∧
      (getAmountOutV2 1 1 1000000 protocol.v2FeeFactor).toNat ≤ 499599 := by
  cases protocol <;> decide

/-- With its own fee out of range, the estimator quotes a V2 pool with the default fee. -/
theorem formulas_v2_differ {protocol : PoolProtocol} (h : protocol ≠ .aerodrome)
    (tickSpacing : Int32) (decimals0 decimals1 : UInt8)
    (hfee : fee.toNat = 0 ∨ (100 < fee.toNat ∧ fee.toNat ≤ 10000))
    (hvalue : out.toNat = (10000 - fee.toNat) * 1000000 / (10000 + (10000 - fee.toNat))) :
    reserveAmountOut protocol tickSpacing fee decimals0 decimals1 1
      ((1 : BitVec 112).setWidth 256) ((1000000 : BitVec 112).setWidth 256) true ≠ out := by
  intro heq
  rw [reserveAmountOut, if_neg h, feeFactor_of_not_csv protocol (hfee.imp_right And.left)] at heq
  obtain ⟨hlow, hhigh⟩ := getAmountOutV2_sample protocol
  rw [show getAmountOutV2 1 1 1000000 protocol.v2FeeFactor = out from heq, hvalue] at hlow hhigh
  rcases hfee with hfee | ⟨hfee, hle⟩
  · rw [hfee] at hhigh
    exact absurd hhigh (by decide)
  · rw [Nat.le_div_iff_mul_le (by omega)] at hlow
    omega

/-- The estimator rounds the amount down after the fee, the contracts only at the end. -/
theorem formulas_volatile_differ {tickSpacing : Int32} (h : tickSpacing ≠ 0)
    (decimals0 decimals1 : UInt8) (hfee : 1 ≤ fee.toNat) (hlt : fee.toNat < 10000)
    (hvalue : out.toNat = (10000 - fee.toNat) * 1000000 / (10000 + (10000 - fee.toNat))) :
    reserveAmountOut .aerodrome tickSpacing fee decimals0 decimals1 1
      ((1 : BitVec 112).setWidth 256) ((1000000 : BitVec 112).setWidth 256) true ≠ out := by
  intro heq
  rw [reserveAmountOut_volatile h _ _ (by decide) (by decide) (by decide),
    afterFee_one hfee hlt.le, getAmountOutVolatile_zero] at heq
  have hpos : 1 ≤ (10000 - fee.toNat) * 1000000 / (10000 + (10000 - fee.toNat)) := by
    rw [Nat.le_div_iff_mul_le (by omega)]
    omega
  rw [← hvalue, ← heq] at hpos
  exact absurd hpos (by decide)

end Kinds

/-- **V2 pools** agree exactly with a fee of 1 to 100 basis points, or where the contracts compute
nothing. -/
theorem compares_v2 (hbased : pool.protocol.isReserveBased) (hne : pool.token0 ≠ pool.token1)
    (h : pool.protocol ≠ .aerodrome) :
    Compares Eq pool ↔
      1 ≤ pool.fee.toNat ∧ pool.fee.toNat ≤ 100 ∨ 10000 < pool.fee.toNat := by
  constructor
  · intro hcompares
    by_contra hrange
    obtain ⟨out, hout, hvalue⟩ := contractOut_sample pool.fee (by omega)
    exact not_compares_of_formulas hbased hne (by decide) (by decide) hout
      (formulas_v2_differ h _ _ _ (by omega) hvalue) hcompares
  · rintro (⟨hfee, hle⟩ | hfee)
    · exact compares_of_formulas hbased fun _ _ _ _ _ h0 h1 hout =>
        formulas_v2 h _ _ _ hfee hle h0 h1 hout
    · exact compares_of_formulas hbased fun _ _ _ _ _ _ _ hout =>
        absurd (fee_le_of_contractOut hout) (Nat.not_le.mpr hfee)

/-- **Volatile pools** agree exactly when the fee is nothing or all, and are never overquoted. -/
theorem compares_volatile (hne : pool.token0 ≠ pool.token1) (h : pool.protocol = .aerodrome)
    (hvolatile : pool.tickSpacing ≠ 0) :
    (Compares Eq pool ↔ pool.fee.toNat = 0 ∨ 10000 ≤ pool.fee.toNat) ∧
      Compares (· ≤ ·) pool := by
  have hbased : pool.protocol.isReserveBased := h ▸ rfl
  refine ⟨⟨fun hcompares => ?_, fun hfee => ?_⟩, ?_⟩
  · by_contra hrange
    obtain ⟨out, hout, hvalue⟩ := contractOut_sample pool.fee (by omega)
    exact not_compares_of_formulas hbased hne (by decide) (by decide) hout
      (h ▸ formulas_volatile_differ hvolatile _ _ (by omega) (by omega) hvalue) hcompares
  · exact compares_of_formulas hbased fun _ _ _ _ _ h0 h1 hout =>
      h ▸ (formulas_volatile hvolatile _ _ h0 h1 hout).2 hfee
  · exact compares_of_formulas hbased fun _ _ _ _ _ h0 h1 hout =>
      h ▸ (formulas_volatile hvolatile _ _ h0 h1 hout).1

/-- The fees at which the estimator and the contracts compute one function for a V2 pool (1 to 100
basis points) or a volatile pool (nothing or all); above 10000 the contracts compute nothing. -/
def OneFormula (protocol : PoolProtocol) (fee : UInt32) : Prop :=
  if protocol = .aerodrome then fee.toNat = 0 ∨ 10000 ≤ fee.toNat
  else 1 ≤ fee.toNat ∧ fee.toNat ≤ 100 ∨ 10000 < fee.toNat

/-- **One formula and one fee.** For a V2 pool or a volatile pool the estimator and the contracts
compute one function exactly at the fees of `OneFormula`, and for a volatile pool the estimator's
amount is never above the contracts'. -/
theorem oneFormula_iff (pool : RawPool) (hbased : pool.protocol.isReserveBased)
    (hne : pool.token0 ≠ pool.token1)
    (hvolatile : pool.protocol = .aerodrome → pool.tickSpacing ≠ 0) :
    (Compares Eq pool ↔ OneFormula pool.protocol pool.fee) ∧
      (pool.protocol = .aerodrome → Compares (· ≤ ·) pool) := by
  unfold OneFormula
  by_cases h : pool.protocol = .aerodrome
  · rw [if_pos h]
    obtain ⟨hiff, hle⟩ := compares_volatile hne h (hvolatile h)
    exact ⟨hiff, fun _ => hle⟩
  · rw [if_neg h]
    exact ⟨compares_v2 hbased hne h, fun haerodrome => absurd haerodrome h⟩

/-- A pool with a fee of 30 basis points. -/
theorem oneFormula_iff_uniswapV2 :
    Compares Eq ⟨10, 1, 2, 18, 6, 30, 0, .uniswapV2⟩ ∧
      ¬ Compares Eq ⟨10, 1, 2, 18, 6, 30, 1, .aerodrome⟩ :=
  ⟨(oneFormula_iff ⟨10, 1, 2, 18, 6, 30, 0, .uniswapV2⟩ rfl (by decide) (by decide)).1.mpr
      (.inl ⟨by decide, by decide⟩),
    fun h => absurd ((oneFormula_iff ⟨10, 1, 2, 18, 6, 30, 1, .aerodrome⟩ rfl (by decide)
      (fun _ => by decide)).1.mp h) (by unfold OneFormula; decide)⟩

/-- A V2 pool without a fee is quoted with the default one, a volatile pool is rounded twice, and a
stable pool, which the estimator prices by the stable invariant, is a constant product to the
contracts. -/
theorem not_oneFormula :
    ¬ Compares Eq ⟨10, 1, 2, 18, 18, 0, 0, .uniswapV2⟩ ∧
      ¬ Compares Eq ⟨10, 1, 2, 18, 18, 30, 1, .aerodrome⟩ ∧
      ¬ Compares Eq ⟨10, 1, 2, 18, 18, 5, 0, .aerodrome⟩ := by
  refine ⟨fun h => ?_, fun h => ?_, fun h => ?_⟩
  · exact absurd ((compares_v2 rfl (by decide) (by decide)).mp h) (by decide)
  · exact absurd ((compares_volatile (by decide) rfl (by decide)).1.mp h) (by decide)
  · obtain ⟨out, hout, hvalue⟩ := contractOut_sample 5 (by decide)
    have hstable : getAmountOutStable 0 ((1 : BitVec 112).setWidth 256)
        ((1000000 : BitVec 112).setWidth 256) (pow10 18) (pow10 18) true = 1000000 := by
      decide +kernel
    refine absurd h (not_compares_of_formulas rfl (by decide) (by decide) (by decide) hout
      fun heq => ?_)
    rw [reserveAmountOut_stable 18 18 (by decide) (by decide) (by decide),
      afterFee_one (by decide) (by decide), hstable] at heq
    rw [← heq] at hvalue
    exact absurd hvalue (by decide)

end ArbBot
