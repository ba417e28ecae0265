import ArbBot.Laws.Calculation.Balancer.Exponential
import ArbBot.Lib.Word

/-!
# The amount out of a weighted pool

For balances and amounts below `2 ^ 128` and weights of at least a hundredth, no number on the way
leaves its type, and no more than the balance is paid out.
-/

namespace ArbBot

namespace Balancer

open Lib

namespace LogExpMath

variable {x y : Int}

theorem tdiv_range {v b : Int} (hv : v ≤ 0) (hb : 0 < b) : v ≤ v.tdiv b ∧ v.tdiv b ≤ 0 := by
  have hrange := sign_tdiv_range (s := -1) (.inr rfl) (by omega : 0 ≤ -1 * v) hb
  omega

theorem tmod_range {v : Int} (hv : v ≤ 0) (b : Int) : v ≤ v.tmod b ∧ v.tmod b ≤ 0 := by
  have habs : (v.tmod b).natAbs ≤ v.natAbs := by
    rw [Int.natAbs_tmod]
    exact Nat.mod_le _ _
  have hsign := Int.tmod_nonneg b (by omega : 0 ≤ -v)
  rw [Int.neg_tmod] at hsign
  omega

/-- The logarithm of a number below one, times an exponent, is not positive. -/
theorem agree_logxTimesY (hx : 0 < x) (hlt : x < one18) (hy : 0 ≤ y) (hyle : y ≤ 99 * one18) :
    Agree (fun ar depth => logxTimesY ar depth x y) fun v => -10 ^ 58 ≤ v ∧ v ≤ 0 := by
  have hyle' : y ≤ 10 ^ 20 := hyle.trans (by decide)
  have htimes : ∀ v : Int, -(16 * 10 ^ 36) ≤ v → v ≤ 0 → -(16 * 10 ^ 36 * 10 ^ 20) ≤ v * y ∧
      v * y ≤ 0 := by
    intro v hlow hhigh
    have hle : -v * y ≤ 16 * 10 ^ 36 * 10 ^ 20 := mul_le_mul (by omega) hyle' hy (by norm_num)
    rw [Int.neg_mul] at hle
    exact ⟨by omega, Int.mul_nonpos_of_nonpos_of_nonneg hhigh hy⟩
  have hsmall : ∀ v : Int, -10 ^ 58 ≤ v → v ≤ 0 → |v| < 2 ^ (256 - 1) := fun v hlow hhigh =>
    fits (abs_le.mpr ⟨hlow, hhigh.trans (by norm_num)⟩) (by norm_num)
  unfold logxTimesY
  by_cases hnear : ln36LowerBound < x ∧ x < ln36UpperBound
  · simp only [if_pos hnear]
    refine (agree_ln36 hx.le hlt).bind ?_
    rintro r ⟨hlow, hhigh⟩
    have hone : 0 < one18 := by decide
    have hquotient := tdiv_range hhigh hone
    have hrest := tmod_range hhigh one18
    have hwhole := htimes _ (hlow.trans hquotient.1) hquotient.2
    have hproduct := htimes _ (hlow.trans hrest.1) hrest.2
    have hpart := tdiv_range hproduct.2 hone
    refine (Agree.idiv hone.ne' (hsmall _ (by omega) hhigh)).bind_eq ?_
    refine (Agree.imul (hsmall _ (by omega) hwhole.2)).bind_eq ?_
    refine (Agree.irem hone.ne' (hsmall _ (by omega) hhigh)).bind_eq ?_
    refine (Agree.imul (hsmall _ (by omega) hproduct.2)).bind_eq ?_
    refine (Agree.idiv hone.ne' (hsmall _ (by omega) hproduct.2)).bind_eq ?_
    refine (Agree.iadd (hsmall _ (by omega) (by omega))).imp ?_
    rintro _ rfl
    omega
  · simp only [if_neg hnear]
    refine (agree_ln hx hlt).bind ?_
    rintro r ⟨hlow, hhigh⟩
    have hproduct := htimes r (by omega) hhigh
    refine (Agree.imul (hsmall _ (by omega) hproduct.2)).imp ?_
    rintro _ rfl
    omega

/-- A power of a number below one. -/
theorem agree_pow {x y : Nat} (hlt : x < Balancer.one18) (hyle : y ≤ 99 * Balancer.one18) :
    Agree (fun ar depth => pow ar depth x y) fun r => r ≤ 10 ^ 47 := by
  unfold Balancer.one18 at hlt hyle
  have hone : Balancer.one18 ≤ 10 ^ 47 := by decide
  have hxbound : ¬ 2 ^ 255 ≤ x := by
    have := (by norm_num : 1000000000000000000 < 2 ^ 255)
    omega
  have hybound : ¬ mildExponentBound ≤ y := by
    have : 10 ^ 21 < mildExponentBound := by decide
    omega
  unfold pow
  by_cases hy : y = 0
  · simp only [if_pos hy]
    exact Agree.pure hone
  by_cases hx : x = 0
  · simp only [if_neg hy, if_pos hx]
    exact Agree.pure (Nat.zero_le _)
  simp only [if_neg hy, if_neg hx, if_neg hxbound, if_neg hybound]
  refine (agree_logxTimesY (x := (x : Int)) (y := (y : Int)) (by omega) ?_ (by omega) ?_).bind ?_
  · unfold one18
    omega
  · unfold one18
    omega
  rintro v ⟨hlow, hhigh⟩
  have hquotient := tdiv_range hhigh (by decide : 0 < one18)
  refine (Agree.idiv (by decide) (fits (A := 10 ^ 58) (abs_le.mpr ⟨hlow, by omega⟩)
    (by norm_num))).bind_eq ?_
  by_cases hbounds : v.tdiv one18 < minNaturalExponent ∨ maxNaturalExponent < v.tdiv one18
  · simp only [if_pos hbounds]
    exact Agree.pure (Nat.zero_le _)
  · simp only [if_neg hbounds]
    obtain ⟨hmin, -⟩ := not_or.mp hbounds
    refine (agree_exp (Int.not_lt.mp hmin) hquotient.2).bind ?_
    rintro r ⟨hnonneg, hle⟩
    have habs : |r| = r := abs_of_nonneg hnonneg
    refine (Agree.int (fits (A := 10 ^ 47) ?_ (by norm_num))).bind_eq ?_
    · rw [abs_abs, habs]
      exact hle
    refine Agree.pure ?_
    rw [habs, if_neg (Int.not_lt.mpr hnonneg)]
    omega

end LogExpMath

/-! ## Fixed-point numbers -/

theorem agree_ceilDiv {a b : Nat} (ha : 1 ≤ a) (halt : a < 2 ^ 256) (hb : 0 < b) :
    Agree (fun ar _ => ceilDiv ar a b) fun r => r * b ≤ a + b := by
  have hle : (a - 1) / b ≤ a - 1 := Nat.div_le_self _ _
  unfold ceilDiv
  refine (Agree.sub ha halt).bind_eq ?_
  refine (Agree.div hb).bind_eq ?_
  refine (Agree.add (by omega)).imp ?_
  rintro _ rfl
  rw [Nat.add_mul, Nat.one_mul, Nat.add_le_add_iff_right]
  exact (Nat.div_mul_le_self _ _).trans (Nat.sub_le _ _)

theorem agree_mulUp {a b : Nat} (h : a * b < 2 ^ 256) :
    Agree (fun ar _ => mulUp ar a b) fun r => r * one18 ≤ a * b + one18 := by
  unfold mulUp
  refine (Agree.mul h).bind_eq ?_
  by_cases hzero : a * b = 0
  · simp only [if_pos hzero]
    exact Agree.pure (by rw [Nat.zero_mul]; exact Nat.zero_le _)
  · simp only [if_neg hzero]
    exact agree_ceilDiv (Nat.pos_of_ne_zero hzero) h (by decide)

/-- A power of a base below one, rounded up. -/
theorem agree_powUp {x y : Nat} (hlt : x < one18) (hyle : y ≤ 99 * one18) :
    Agree (fun ar depth => powUp ar depth x y) fun r => r ≤ 10 ^ 48 := by
  have hsquare : ∀ {a : Nat}, a ≤ 2 * one18 →
      Agree (fun ar _ => mulUp ar a a) fun r => r * one18 ≤ a * a + one18 := fun {a} ha =>
    agree_mulUp (Nat.lt_of_le_of_lt (Nat.mul_le_mul ha ha) (by decide))
  have hself : x * x ≤ one18 * one18 := Nat.mul_le_mul hlt.le hlt.le
  unfold powUp
  refine (Agree.mul (by decide)).bind_eq ?_
  refine (Agree.mul (by decide)).bind_eq ?_
  by_cases hone : y = one18
  · simp only [if_pos hone]
    exact Agree.pure (hlt.le.trans (by decide))
  by_cases htwo : y = one18 * 2
  · simp only [if_neg hone, if_pos htwo]
    refine (hsquare (by omega)).imp fun r hr => ?_
    unfold one18 at hr hself
    omega
  by_cases hfour : y = one18 * 4
  · simp only [if_neg hone, if_neg htwo, if_pos hfour]
    refine (hsquare (by omega)).bind fun square hle => ?_
    have hbound : square ≤ 2 * one18 := by
      unfold one18 at hle hself ⊢
      omega
    have hbounds := Nat.mul_le_mul hbound hbound
    refine (hsquare hbound).imp fun r hr => ?_
    unfold one18 at hr hbounds
    omega
  simp only [if_neg hone, if_neg htwo, if_neg hfour]
  refine (LogExpMath.agree_pow hlt hyle).bind fun raw hraw => ?_
  refine (agree_mulUp (a := raw) (b := 10000) (by omega)).bind fun relative hrelative => ?_
  unfold one18 at hrelative
  refine (Agree.add (by omega)).bind_eq ?_
  refine (Agree.add (by omega)).imp ?_
  rintro _ rfl
  omega

theorem agree_complement (x : Nat) : Agree (fun ar _ => complement ar x) fun r => r ≤ one18 := by
  unfold complement
  by_cases hx : x < one18
  · simp only [if_pos hx]
    refine (Agree.sub hx.le (by decide)).imp ?_
    rintro _ rfl
    exact Nat.sub_le _ _
  · simp only [if_neg hx]
    exact Agree.pure (Nat.zero_le _)

/-- A part of an amount that is no more than all of it. -/
theorem agree_mulDown {a b : Nat} (ha : a < 2 ^ 128) (hb : b ≤ one18) :
    Agree (fun ar _ => mulDown ar a b) fun r => r ≤ a := by
  have hproduct : a * b ≤ a * one18 := Nat.mul_le_mul_left a hb
  unfold mulDown
  refine (Agree.mul (by unfold one18 at hproduct; omega)).bind_eq ?_
  refine (Agree.div (by decide)).imp ?_
  rintro _ rfl
  exact Nat.div_le_of_le_mul (hproduct.trans_eq (Nat.mul_comm a one18))

theorem agree_divUp {a b : Nat} (ha : a < 2 ^ 128) :
    Agree (fun ar _ => divUp ar a b) fun _ => True := by
  unfold divUp
  by_cases hzero : a = 0 ∨ b = 0
  · simp only [if_pos hzero]
    exact Agree.pure trivial
  · simp only [if_neg hzero]
    obtain ⟨ha0, hb0⟩ := not_or.mp hzero
    refine (Agree.mul (by unfold one18; omega)).bind_eq ?_
    refine (agree_ceilDiv ?_ (by unfold one18; omega) (Nat.pos_of_ne_zero hb0)).imp ?_
    · exact Nat.mul_pos (Nat.pos_of_ne_zero ha0) (by decide)
    · exact fun _ _ => trivial

/-- The quotient of the weights. -/
theorem agree_divDown {a b : Nat} (ha : a ≤ 99 * 10 ^ 16) (hb : 10 ^ 16 ≤ b) :
    Agree (fun ar _ => divDown ar a b) fun r => r ≤ 99 * one18 := by
  unfold divDown
  by_cases hzero : a = 0 ∨ b = 0
  · simp only [if_pos hzero]
    exact Agree.pure (Nat.zero_le _)
  · simp only [if_neg hzero]
    refine (Agree.mul (by unfold one18; omega)).bind_eq ?_
    refine (Agree.div (by omega)).imp ?_
    rintro _ rfl
    refine (Nat.div_le_div_left hb (by norm_num)).trans ?_
    unfold one18
    omega

/-- An amount scaled up. -/
theorem agree_scale {value : Nat} {decimals : Int} (hvalue : value < 2 ^ 128) (hlow : 0 ≤ decimals)
    (hhigh : decimals ≤ 18) :
    Agree (fun ar _ => scale ar value decimals) fun r => r ≤ 2 ^ 128 * 10 ^ 18 := by
  have hfactor : 10 ^ decimals.toNat ≤ 10 ^ 18 := Nat.pow_le_pow_right (by decide) (by omega)
  unfold scale
  simp only [if_pos hlow]
  refine (Agree.pow (Nat.lt_of_le_of_lt hfactor (by norm_num))).bind_eq ?_
  exact Agree.pure ((Nat.min_le_left _ _).trans (Nat.mul_le_mul hvalue.le hfactor))

/-! ## The amount out -/

section

variable {amountIn balanceIn balanceOut weightIn weightOut swapFee : U256} {tokenInDecimals : UInt8}

theorem agree_getAmountOutBalancer (hamount : amountIn.toNat < 2 ^ 128)
    (hbalanceIn : balanceIn.toNat < 2 ^ 128) (hbalanceOut : balanceOut.toNat < 2 ^ 128)
    (hweightIn : weightIn.toNat ≤ 99 * 10 ^ 16) (hweightOut : 10 ^ 16 ≤ weightOut.toNat)
    (hfee : swapFee.toNat ≤ 10 ^ 18) (hdecimals : tokenInDecimals.toNat ≤ 18) :
    Agree (fun ar depth => getAmountOutBalancer ar depth amountIn balanceIn balanceOut weightIn
      weightOut swapFee tokenInDecimals) fun out => out ≤ balanceOut := by
  have hwrap : wrapInt 8 tokenInDecimals.toNat = tokenInDecimals.toNat :=
    wrapInt_of_range (by omega) (by omega) (by decide)
  have hnone : (0 : U256) ≤ balanceOut := BitVec.le_def.mpr (Nat.zero_le _)
  unfold getAmountOutBalancer
  by_cases hzero : amountIn = 0 ∨ balanceIn = 0 ∨ balanceOut = 0
  · simp only [if_pos hzero]
    exact Agree.pure (hnone)
  simp only [if_neg hzero]
  rw [hwrap]
  have hscaling : Agree (fun ar _ => ar.isub 8 18 tokenInDecimals.toNat)
      (· = 18 - (tokenInDecimals.toNat : Int)) :=
    Agree.isub (abs_lt.mpr ⟨by omega, by omega⟩)
  refine hscaling.bind fun factor hfactor => ?_
  refine (agree_scale hamount (by omega) (by omega)).bind fun scaled hscaled => ?_
  have hfees : scaled * swapFee.toNat ≤ 2 ^ 128 * 10 ^ 18 * 10 ^ 18 := Nat.mul_le_mul hscaled hfee
  refine (agree_mulUp (Nat.lt_of_le_of_lt hfees (by norm_num))).bind fun fee _ => ?_
  have hrest : subChecked scaled fee ≤ scaled := Nat.sub_le _ _
  refine (Agree.add (by omega)).bind_eq ?_
  by_cases hdenominator : balanceIn.toNat + subChecked scaled fee = 0
  · simp only [if_pos hdenominator]
    exact Agree.pure (hnone)
  simp only [if_neg hdenominator]
  refine (agree_divUp hbalanceIn).bind fun base _ => ?_
  refine (agree_divDown hweightIn hweightOut).bind fun exponent hexponent => ?_
  by_cases hedge : exponent = 0 ∨ one18 ≤ base
  · simp only [if_pos hedge]
    exact Agree.pure (hnone)
  simp only [if_neg hedge]
  have hbase : base < one18 := Nat.not_le.mp (not_or.mp hedge).2
  refine (agree_powUp hbase hexponent).bind fun power _ => ?_
  refine (agree_complement power).bind fun rest hcomplement => ?_
  refine (agree_mulDown hbalanceOut hcomplement).bind fun out hout => ?_
  refine Agree.pure ?_
  rw [BitVec.le_def, toNat_ofNat_of_lt (by omega)]
  exact hout

/-- **No number leaves its type, nothing is divided by zero, every recursion stops after one step,
and no more than the balance is paid**: wrapping and checked arithmetic give one amount. -/
theorem getAmountOutBalancer_bounded (hamount : amountIn.toNat < 2 ^ 128)
    (hbalanceIn : balanceIn.toNat < 2 ^ 128) (hbalanceOut : balanceOut.toNat < 2 ^ 128)
    (hweightIn : weightIn.toNat ≤ 99 * 10 ^ 16) (hweightOut : 10 ^ 16 ≤ weightOut.toNat)
    (hfee : swapFee.toNat ≤ 10 ^ 18) (hdecimals : tokenInDecimals.toNat ≤ 18) :
    ∃ out ≤ balanceOut, ∀ depth, 2 ≤ depth →
      getAmountOutBalancer .checked depth amountIn balanceIn balanceOut weightIn weightOut swapFee
        tokenInDecimals = some out ∧
      getAmountOutBalancer .release depth amountIn balanceIn balanceOut weightIn weightOut swapFee
        tokenInDecimals = some out := by
  obtain ⟨out, hle, hagree⟩ := agree_getAmountOutBalancer hamount hbalanceIn hbalanceOut hweightIn
    hweightOut hfee hdecimals
  refine ⟨out, hle, fun depth hdepth => ⟨?_, ?_⟩⟩
  · exact hagree .checked depth Arith.checked_isExact hdepth
  · exact hagree .release depth Arith.release_isExact hdepth

/-- A thousandth of a pool of equal weights, at a fee of 0.3 %. -/
theorem getAmountOutBalancer_bounded_thousandth :
    ∃ out ≤ (1000000000000000000000 : U256), ∀ depth, 2 ≤ depth →
      getAmountOutBalancer .checked depth 1000000000000000000 1000000000000000000000
        1000000000000000000000 500000000000000000 500000000000000000 3000000000000000 18 =
          some out ∧
      getAmountOutBalancer .release depth 1000000000000000000 1000000000000000000000
        1000000000000000000000 500000000000000000 500000000000000000 3000000000000000 18 =
          some out :=
  getAmountOutBalancer_bounded (by decide +kernel) (by decide +kernel) (by decide +kernel)
    (by decide +kernel) (by decide +kernel) (by decide +kernel) (by decide +kernel)

end

end Balancer

end ArbBot
