import ArbBot.Laws.TxSender.Nonce

/-!
# Affordable bids

The bid of `calc_priority_fee` is a share of the profit per unit of gas, so paid for the estimated
gas it is no more than the profit (`calcPriorityFee_mul_le`). `build_and_send` keeps the bid where
the base fee and the bid reach 5 mwei together; below that it raises the priority fee until they
do, whatever the profit. The maximum fee covers both, as far as 64 bits reach (`fees_affordable`).
-/

namespace ArbBot.TxSender

open Lib

/-- The claim of a bid: paid from the profit, and covered by the maximum fee. -/
def PaidAndCovered (base gas : UInt64) (netProfit : U256) (maxFee priority : UInt64) : Prop :=
  priority.toNat * gas.toNat ≤ netProfit.toNat ∧ base.toNat + priority.toNat ≤ maxFee.toNat ∧
    priority ≤ maxFee

/-- The fees for a base fee and a bid. -/
structure Affordable (base bid gas : UInt64) (netProfit : U256) (maxFee priority : UInt64) :
    Prop where
  paid : 5000000 ≤ base.toNat + bid.toNat → priority.toNat * gas.toNat ≤ netProfit.toNat
  raised : base.toNat + bid.toNat < 5000000 → base.toNat + priority.toNat = 5000000
  covered : min (base.toNat + priority.toNat) (2 ^ 64 - 1) ≤ maxFee.toNat
  valid : priority ≤ maxFee

variable {c : Config} {g : GasStation} {valid : ValidPath}

/-- The profit `build_and_send` counts with: cut to 64 bits. -/
def countedProfit (valid : ValidPath) : UInt64 :=
  UInt64.ofNat (min valid.netProfit.toNat (2 ^ 64 - 1))

theorem countedProfit_le (valid : ValidPath) :
    (countedProfit valid).toNat ≤ valid.netProfit.toNat := by
  rw [countedProfit, UInt64.toNat_ofNat']
  exact (Nat.mod_le _ _).trans (Nat.min_le_left _ _)

/-- The bid for the estimated gas is no more than the profit. -/
theorem calcPriorityFee_mul_le {share : UInt64} (hshare : share ≤ 10000) (g : GasStation)
    (profit gas : UInt64) :
    (g.calcPriorityFee profit gas share).toNat * gas.toNat ≤ profit.toNat := by
  unfold GasStation.calcPriorityFee
  split
  · rw [UInt64.toNat_zero, Nat.zero_mul]
    exact Nat.zero_le _
  have hbid : (min (UInt64.ofNat (profit.toNat * share.toNat / 10000 / gas.toNat))
      g.priorityFeeCapWei).toNat ≤ profit.toNat * share.toNat / 10000 / gas.toNat := by
    rw [toNat_min, UInt64.toNat_ofNat']
    exact (Nat.min_le_left _ _).trans (Nat.mod_le _ _)
  calc _ ≤ profit.toNat * share.toNat / 10000 / gas.toNat * gas.toNat :=
        Nat.mul_le_mul_right _ hbid
    _ ≤ profit.toNat * share.toNat / 10000 := Nat.div_mul_le_self _ _
    _ ≤ profit.toNat * 10000 / 10000 :=
        Nat.div_le_div_right (Nat.mul_le_mul_left _ (UInt64.le_iff_toNat_le.mp hshare))
    _ = profit.toNat := Nat.mul_div_cancel _ (by decide)

/-- The maximum fee is twice the sum of the base fee and the priority fee, as far as it fits. -/
theorem covered_maxFee (base priority : UInt64) :
    min (base.toNat + priority.toNat) (2 ^ 64 - 1) ≤
      (saturatingMul (saturatingAdd base priority) 2).toNat := by
  have htwo : (2 : UInt64).toNat = 2 := rfl
  rw [toNat_saturatingMul, toNat_saturatingAdd, htwo]
  omega

theorem valid_maxFee (base priority : UInt64) :
    priority ≤ saturatingMul (saturatingAdd base priority) 2 := by
  have hcovered := covered_maxFee base priority
  have hpriority := priority.toNat_lt
  rw [UInt64.le_iff_toNat_le]
  omega

/-- **Bids are paid from the profit and covered by the maximum fee**, but for a base fee and a bid
below the minimum effective fee, which the priority fee makes up. -/
theorem fees_affordable (c : Config) (g : GasStation) (valid : ValidPath) (maxFee priority : UInt64)
    (hshare : c.profitShareBps ≤ 10000) (hfees : fees c g valid = some (maxFee, priority)) :
    ∃ base, g.predictNextBaseFee = some base ∧
      Affordable base
        (g.calcPriorityFee (countedProfit valid) valid.arb.gasEstimate c.profitShareBps)
        valid.arb.gasEstimate valid.netProfit maxFee priority := by
  unfold fees at hfees
  cases hbase : g.predictNextBaseFee with
  | none => rw [hbase] at hfees; cases hfees
  | some base =>
    rw [hbase] at hfees
    refine ⟨base, rfl, ?_⟩
    have hbid := (calcPriorityFee_mul_le hshare g (countedProfit valid)
      valid.arb.gasEstimate).trans (countedProfit_le valid)
    change some (_, _) = some _ at hfees
    rw [← countedProfit] at hfees
    generalize g.calcPriorityFee (countedProfit valid) valid.arb.gasEstimate c.profitShareBps =
      bid at hfees hbid ⊢
    obtain ⟨rfl, rfl⟩ := Prod.mk.inj (Option.some.inj hfees)
    have hmin : (5000000 : UInt64).toNat = 5000000 := rfl
    by_cases hbelow : saturatingAdd base bid < 5000000
    · -- the sum does not saturate there
      have hsum : base.toNat + bid.toNat < 5000000 := by
        rw [UInt64.lt_iff_toNat_lt, toNat_saturatingAdd, hmin] at hbelow
        omega
      rw [if_pos hbelow]
      refine ⟨fun h => absurd hsum (Nat.not_lt.mpr h), fun _ => ?_, covered_maxFee _ _, ?_⟩
      · rw [toNat_saturatingSub, hmin]
        omega
      · exact valid_maxFee _ _
    · have hsum : 5000000 ≤ base.toNat + bid.toNat := by
        rw [UInt64.lt_iff_toNat_lt, toNat_saturatingAdd, hmin] at hbelow
        omega
      rw [if_neg hbelow]
      exact ⟨fun _ => hbid, fun h => absurd h (Nat.not_lt.mpr hsum), covered_maxFee _ _,
        valid_maxFee _ _⟩

/-! ### A raised priority fee -/

/-- A base fee of 1 mwei at the floor of an optimistic rollup. -/
def quietStation : GasStation := ⟨1000000, 5000000, 30000000, 6, 50, 1000000, 10000000000⟩

/-- A profit of `10 ^ 12` wei for 300000 units of gas. -/
def smallProfit : ValidPath := ⟨⟨⟨[], 0⟩, 0, 300000, 0⟩, 1, 1, 0, 1000000000000⟩

/-- Live submission from `10 ^ 12` wei on. -/
def smallThreshold : Config := { sampleConfig with minSubmitProfitWei := 1000000000000 }

/-- A base fee at the end of the word. -/
def fullStation : GasStation := { quietStation with baseFee := 18446744073709551615 }

/-- The profit is at the threshold, and the raised priority fee costs a fifth more; and at the end
of the word no maximum fee covers a priority fee. -/
theorem not_paidAndCovered :
    (smallThreshold.profitShareBps ≤ 10000 ∧
      ¬ smallProfit.netProfit < smallThreshold.minSubmitProfitWei ∧
      quietStation.predictNextBaseFee = some 1000000 ∧
      fees smallThreshold quietStation smallProfit = some (10000000, 4000000) ∧
      ¬ PaidAndCovered 1000000 smallProfit.arb.gasEstimate smallProfit.netProfit 10000000
        4000000) ∧
    (fullStation.predictNextBaseFee = some 18446744073709551615 ∧
      fees smallThreshold fullStation smallProfit = some (18446744073709551615, 1666666) ∧
      ¬ PaidAndCovered 18446744073709551615 smallProfit.arb.gasEstimate smallProfit.netProfit
        18446744073709551615 1666666) := by
  unfold PaidAndCovered
  decide +kernel

/-- The same path over a base fee of 1 mwei. -/
theorem fees_affordable_quiet :
    ∃ base, quietStation.predictNextBaseFee = some base ∧
      Affordable base
        (quietStation.calcPriorityFee (countedProfit smallProfit) smallProfit.arb.gasEstimate
          smallThreshold.profitShareBps)
        smallProfit.arb.gasEstimate smallProfit.netProfit 10000000 4000000 :=
  fees_affordable smallThreshold quietStation smallProfit 10000000 4000000 (by decide)
    (by decide +kernel)

end ArbBot.TxSender
