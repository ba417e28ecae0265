import ArbBot.Calculation.Rates

/-!
# Seeded rates

Which amount-out function the rates of a reserve-based pool are computed from, and with which fee.
-/

namespace ArbBot

open Lib RateEstimator

variable {quote : V3Quote} {db : StateDb} {est : RateEstimator} {fee : UInt32}

theorem updateV2Rate_eq (pool : Address) (decimals0 decimals1 : UInt8) {protocol : PoolProtocol}
    (h : protocol ≠ .aerodrome) (tickSpacing : Int32) (fee : UInt32) :
    est.updateV2Rate db pool decimals0 decimals1 (feeFactor protocol fee) =
      est.insertReserveRates db pool decimals0 decimals1
        (reserveAmountOut protocol tickSpacing fee decimals0 decimals1) := by
  simp only [updateV2Rate, insertReserveRates, reserveAmountOut, if_neg h]
  rfl

theorem updateAerodromeRate_eq (pool : Address) (decimals0 decimals1 : UInt8)
    (tickSpacing : Int32) (fee : UInt32) :
    est.updateAerodromeRate db pool decimals0 decimals1 (decide (tickSpacing = 0)) fee.toUInt64 =
      est.insertReserveRates db pool decimals0 decimals1
        (reserveAmountOut .aerodrome tickSpacing fee decimals0 decimals1) := by
  simp only [updateAerodromeRate, insertReserveRates, reserveAmountOut, if_pos]

theorem PoolProtocol.isReserveBased_not {protocol : PoolProtocol} (h : protocol.isReserveBased) :
    ¬ protocol.isV3 ∧ ¬ protocol.isExotic := by
  cases protocol <;> revert h <;> decide

/-- Seeding a reserve-based pool stores the rates of its amount-out function. -/
theorem seedPool_reserveBased {pool : RawPool} (h : pool.protocol.isReserveBased) :
    seedPool quote db est pool =
      est.insertReserveRates db pool.address pool.decimals0 pool.decimals1
        (reserveAmountOut pool.protocol pool.tickSpacing pool.fee pool.decimals0
          pool.decimals1) := by
  obtain ⟨hv3, hexotic⟩ := PoolProtocol.isReserveBased_not h
  rw [seedPool, if_neg hv3]
  by_cases haerodrome : pool.protocol = .aerodrome
  · rw [if_pos haerodrome, haerodrome]
    exact updateAerodromeRate_eq ..
  · rw [if_neg haerodrome, if_neg hexotic]
    exact updateV2Rate_eq _ _ _ haerodrome _ _

theorem toNat_rateScale : rateScale.toNat = 10 ^ 18 := by decide

/-! ## Fee factors -/

theorem toNat_csvFactor (fee : UInt32) :
    (saturatingSub 10000 fee.toUInt64).toNat = 10000 - fee.toNat := by
  rw [toNat_saturatingSub, UInt32.toNat_toUInt64]
  rfl

theorem feeFactor_of_csv (protocol : PoolProtocol) (h1 : 1 ≤ fee.toNat) (h100 : fee.toNat ≤ 100) :
    (feeFactor protocol fee).toNat = 10000 - fee.toNat := by
  have hrange : 9900 ≤ saturatingSub 10000 fee.toUInt64 ∧
      saturatingSub 10000 fee.toUInt64 < 10000 := by
    rw [UInt64.le_iff_toNat_le, UInt64.lt_iff_toNat_lt, toNat_csvFactor]
    exact ⟨by simp; omega, by simp; omega⟩
  simp only [feeFactor, if_pos hrange, toNat_csvFactor]

theorem feeFactor_of_not_csv (protocol : PoolProtocol) (h : fee.toNat = 0 ∨ 100 < fee.toNat) :
    feeFactor protocol fee = protocol.v2FeeFactor := by
  have hrange : ¬ (9900 ≤ saturatingSub 10000 fee.toUInt64 ∧
      saturatingSub 10000 fee.toUInt64 < 10000) := by
    rw [UInt64.le_iff_toNat_le, UInt64.lt_iff_toNat_lt, toNat_csvFactor]
    simp
    omega
  simp only [feeFactor, if_neg hrange]

end ArbBot
