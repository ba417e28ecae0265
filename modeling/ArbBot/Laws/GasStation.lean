import ArbBot.GasStation
import Mathlib.Data.UInt
import Mathlib.Tactic.GCongr

/-!
# The predicted base fee against EIP-1559

The fee moves by a fraction of itself: the gap between the gas used and the target, over the
target and the change denominator. Downwards the move is no more than the fee. Upwards it can leave
64 bits, and `calc_next_base_fee` keeps its low 64 bits only, before it adds with saturation. So
the prediction is that of EIP-1559 exactly where the upward move fits, or where the fee or its
floor stands at the end of the word anyway (`calcNextBaseFee_iff`); and between such blocks it does
not fall with the gas used.
-/

namespace ArbBot

open Lib

/-! ## EIP-1559 -/

/-- How far the fee moves for a gap to the target. -/
def feeMove (base gap target denominator : Nat) : Nat := base * gap / target / denominator

/-- The EIP-1559 update in unbounded integers. -/
def eip1559BaseFee (base used limit elasticity denominator : Nat) : Nat :=
  let target := limit / elasticity
  if limit = 0 ∨ target = 0 then base
  else if target < used then base + max 1 (feeMove base (used - target) target denominator)
  else if used < target then base - feeMove base (target - used) target denominator
  else base

theorem feeMove_zero (base target denominator : Nat) : feeMove base 0 target denominator = 0 := by
  simp only [feeMove, Nat.mul_zero, Nat.zero_div]

theorem feeMove_mono {gap gap' : Nat} (h : gap ≤ gap') (base target denominator : Nat) :
    feeMove base gap target denominator ≤ feeMove base gap' target denominator := by
  unfold feeMove
  gcongr

/-- Downwards the fee moves by no more than itself. -/
theorem feeMove_le {gap target : Nat} (h : gap ≤ target) (base denominator : Nat) :
    feeMove base gap target denominator ≤ base := by
  refine (Nat.div_le_self _ _).trans (Nat.div_le_of_le_mul ?_)
  rw [Nat.mul_comm target]
  exact Nat.mul_le_mul_left base h

theorem eip1559BaseFee_mono {used used' : Nat} (h : used ≤ used')
    (base limit elasticity denominator : Nat) :
    eip1559BaseFee base used limit elasticity denominator ≤
      eip1559BaseFee base used' limit elasticity denominator := by
  unfold eip1559BaseFee
  dsimp only
  generalize limit / elasticity = target
  by_cases hidle : limit = 0 ∨ target = 0
  · rw [if_pos hidle, if_pos hidle]
  rw [if_neg hidle, if_neg hidle]
  have hup := feeMove_mono (Nat.sub_le_sub_right h target) base target denominator
  have hdown := feeMove_mono (Nat.sub_le_sub_left h target) base target denominator
  split_ifs <;> omega

/-! ## The prediction -/

variable (base used limit elasticity denominator minFee : UInt64)

/-- The prediction is that of EIP-1559, capped to the word and floored at the minimum fee. -/
def Predicts : Prop :=
  (calcNextBaseFee base used limit elasticity denominator minFee).map UInt64.toNat =
    some (max (min (eip1559BaseFee base.toNat used.toNat limit.toNat elasticity.toNat
      denominator.toNat) (2 ^ 64 - 1)) minFee.toNat)

/-- The upward move fits the word, or the fee or its floor is at the end of the word although the
move is cut to it. -/
def MoveFits : Prop :=
  let target := limit.toNat / elasticity.toNat
  let move := feeMove base.toNat (used.toNat - target) target denominator.toNat
  move < 2 ^ 64 ∨ 2 ^ 64 - 1 ≤ base.toNat + max 1 (move % 2 ^ 64) ∨ minFee.toNat = 2 ^ 64 - 1

variable {base used limit elasticity denominator minFee : UInt64}

/-- What is predicted, with the upward move cut to the word. -/
def predicted (base used target denominator minFee : Nat) : Nat :=
  max (if target = 0 then base
    else if target < used then
      min (base + max 1 (feeMove base (used - target) target denominator % 2 ^ 64)) (2 ^ 64 - 1)
    else base - feeMove base (target - used) target denominator) minFee

theorem calcNextBaseFee_toNat (base used limit minFee : UInt64) (he : elasticity ≠ 0)
    (hd : denominator ≠ 0) :
    ∃ fee, calcNextBaseFee base used limit elasticity denominator minFee = some fee ∧
      fee.toNat = predicted base.toNat used.toNat (limit.toNat / elasticity.toNat)
        denominator.toNat minFee.toNat := by
  unfold calcNextBaseFee
  by_cases hlimit : limit = 0
  · refine ⟨_, if_pos hlimit, ?_⟩
    rw [hlimit, toNat_max, UInt64.toNat_zero, predicted, if_pos (Nat.zero_div _)]
  rw [if_neg hlimit, if_neg he, ← UInt64.toNat_div]
  dsimp only
  generalize limit / elasticity = target
  have hmove : ∀ gap : UInt64, (UInt64.ofNat (base.toNat * gap.toNat / target.toNat /
      denominator.toNat)).toNat =
        feeMove base.toNat gap.toNat target.toNat denominator.toNat % 2 ^ 64 := fun _ =>
    UInt64.toNat_ofNat'
  by_cases htarget : target = 0
  · refine ⟨_, if_pos htarget, ?_⟩
    rw [htarget, toNat_max, UInt64.toNat_zero, predicted, if_pos rfl]
  have htarget' : target.toNat ≠ 0 := fun h => htarget (UInt64.toNat_inj.mp h)
  rw [if_neg htarget]
  by_cases heq : used = target
  · refine ⟨_, if_pos heq, ?_⟩
    rw [heq, toNat_max, predicted, if_neg htarget', if_neg (Nat.lt_irrefl _), Nat.sub_self,
      feeMove_zero, Nat.sub_zero]
  rw [if_neg heq, if_neg hd]
  by_cases hlt : target < used
  · refine ⟨_, if_pos hlt, ?_⟩
    have hlt' := UInt64.lt_iff_toNat_lt.mp hlt
    rw [toNat_max, toNat_saturatingAdd, toNat_max, hmove,
      UInt64.toNat_sub_of_le _ _ (UInt64.le_of_lt hlt), predicted, if_neg htarget', if_pos hlt',
      Nat.max_comm 1]
    rfl
  · refine ⟨_, if_neg hlt, ?_⟩
    have hle := UInt64.not_lt.mp hlt
    have hsmall := feeMove_le (Nat.sub_le target.toNat used.toNat) base.toNat denominator.toNat
    rw [toNat_max, toNat_saturatingSub, hmove, UInt64.toNat_sub_of_le _ _ hle, predicted,
      if_neg htarget', if_neg (mt UInt64.lt_iff_toNat_lt.mpr hlt),
      Nat.mod_eq_of_lt (hsmall.trans_lt base.toNat_lt)]

theorem predicts_iff (he : elasticity ≠ 0) (hd : denominator ≠ 0) :
    Predicts base used limit elasticity denominator minFee ↔
      predicted base.toNat used.toNat (limit.toNat / elasticity.toNat) denominator.toNat
          minFee.toNat =
        max (min (eip1559BaseFee base.toNat used.toNat limit.toNat elasticity.toNat
          denominator.toNat) (2 ^ 64 - 1)) minFee.toNat := by
  obtain ⟨fee, hfee, hvalue⟩ := calcNextBaseFee_toNat base used limit minFee he hd
  rw [Predicts, hfee, Option.map_some, Option.some_inj, hvalue]

/-- Where the move fits, the prediction is that of EIP-1559. -/
theorem predicts_iff_moveFits (he : elasticity ≠ 0) (hd : denominator ≠ 0) :
    Predicts base used limit elasticity denominator minFee ↔
      MoveFits base used limit elasticity denominator minFee := by
  rw [predicts_iff he hd]
  have hbase := base.toNat_lt
  have hmin := minFee.toNat_lt
  unfold MoveFits predicted eip1559BaseFee
  dsimp only
  have hidle : (limit.toNat = 0 ∨ limit.toNat / elasticity.toNat = 0) ↔
      limit.toNat / elasticity.toNat = 0 :=
    or_iff_right_of_imp fun h => by rw [h, Nat.zero_div]
  simp only [hidle]
  generalize limit.toNat / elasticity.toNat = target
  by_cases htarget : target = 0
  · subst htarget
    simp only [if_true, feeMove, Nat.div_zero, Nat.zero_div]
    omega
  rw [if_neg htarget, if_neg htarget]
  by_cases hlt : target < used.toNat
  · rw [if_pos hlt, if_pos hlt]
    generalize feeMove base.toNat (used.toNat - target) target denominator.toNat = move
    omega
  · rw [if_neg hlt, if_neg hlt, Nat.sub_eq_zero_of_le (Nat.not_lt.mp hlt), feeMove_zero]
    refine iff_of_true ?_ (.inl (by decide))
    by_cases hbelow : used.toNat < target
    · rw [if_pos hbelow]
      omega
    · rw [if_neg hbelow, Nat.sub_eq_zero_of_le (Nat.not_lt.mp hbelow), feeMove_zero]
      omega

/-- **The prediction is that of EIP-1559 exactly where the upward move fits.** And between blocks
where it does, a block that used more gas has no lower prediction. -/
theorem calcNextBaseFee_iff (base used limit elasticity denominator minFee : UInt64)
    (he : elasticity ≠ 0) (hd : denominator ≠ 0) :
    (Predicts base used limit elasticity denominator minFee ↔
      MoveFits base used limit elasticity denominator minFee) ∧
    ∀ used', used ≤ used' → MoveFits base used limit elasticity denominator minFee →
      MoveFits base used' limit elasticity denominator minFee →
      ∃ fee fee', calcNextBaseFee base used limit elasticity denominator minFee = some fee ∧
        calcNextBaseFee base used' limit elasticity denominator minFee = some fee' ∧
        fee ≤ fee' := by
  refine ⟨predicts_iff_moveFits he hd, fun used' hused hfits hfits' => ?_⟩
  obtain ⟨fee, hfee, hvalue⟩ := calcNextBaseFee_toNat base used limit minFee he hd
  obtain ⟨fee', hfee', hvalue'⟩ := calcNextBaseFee_toNat base used' limit minFee he hd
  refine ⟨fee, fee', hfee, hfee', UInt64.le_iff_toNat_le.mpr ?_⟩
  rw [hvalue, hvalue', (predicts_iff he hd).mp ((predicts_iff_moveFits he hd).mpr hfits),
    (predicts_iff he hd).mp ((predicts_iff_moveFits he hd).mpr hfits')]
  have hmono := eip1559BaseFee_mono (UInt64.le_iff_toNat_le.mp hused) base.toNat limit.toNat
    elasticity.toNat denominator.toNat
  omega

/-- A block at its limit, four times over the target, with the move at the edge of the word: the
fee is to rise to the end of the word and rises by one, and a block with less gas has a higher
prediction. -/
theorem not_predicts_full :
    ¬ Predicts (2 ^ 62) 10 10 5 1 1000000 ∧
      calcNextBaseFee (2 ^ 62) 10 10 5 1 1000000 = some (2 ^ 62 + 1) ∧
      calcNextBaseFee (2 ^ 62) 9 10 5 1 1000000 = some (2 ^ 64 - 1) := by
  refine ⟨?_, by decide +kernel, by decide +kernel⟩
  unfold Predicts
  decide +kernel

/-- A block above the target, with the parameters of an optimistic rollup. -/
theorem calcNextBaseFee_iff_rollup : Predicts 1000000000 6000000 30000000 6 50 1000000 := by
  have hfits : MoveFits 1000000000 6000000 30000000 6 50 1000000 := by
    unfold MoveFits
    decide
  exact (calcNextBaseFee_iff 1000000000 6000000 30000000 6 50 1000000 (by decide)
    (by decide)).1.mpr hfits

end ArbBot
