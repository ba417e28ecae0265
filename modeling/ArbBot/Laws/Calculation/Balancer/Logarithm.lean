import ArbBot.Calculation.Balancer
import Mathlib.Algebra.Order.BigOperators.Group.List
import Mathlib.Tactic.Linarith
import Mathlib.Tactic.NormNum

/-!
# The logarithms stay in range

`_ln_36` and `_ln` sum a series in the quotient of a difference by a sum, which is at most one either
way. `_ln` takes powers of e out of its argument first, and keeps it at one or above; the logarithm of
a number below one is that of its inverse, whose logarithm needs no further inversion.
-/

namespace ArbBot

namespace Balancer.LogExpMath

open Lib

/-! ## Truncated quotients -/

section

variable {s v b : Int}

/-- A sign goes through a truncated division. -/
theorem sign_mul_tdiv (hs : s = 1 ∨ s = -1) (v b : Int) : s * v.tdiv b = (s * v).tdiv b := by
  rcases hs with rfl | rfl
  · rw [Int.one_mul, Int.one_mul]
  · rw [Int.neg_mul, Int.one_mul, Int.neg_mul, Int.one_mul, Int.neg_tdiv]

theorem sign_tdiv_range (hs : s = 1 ∨ s = -1) (hv : 0 ≤ s * v) (hb : 0 < b) :
    0 ≤ s * v.tdiv b ∧ s * v.tdiv b ≤ s * v := by
  rw [sign_mul_tdiv hs, Int.tdiv_eq_ediv_of_nonneg hv]
  exact ⟨Int.ediv_nonneg hv hb.le, Int.ediv_le_self b hv⟩

theorem abs_of_sign (hs : s = 1 ∨ s = -1) (hv : 0 ≤ s * v) : |v| = s * v := by
  rcases hs with rfl | rfl
  · rw [Int.one_mul] at hv ⊢
    exact abs_of_nonneg hv
  · rw [Int.neg_mul, Int.one_mul] at hv ⊢
    exact abs_of_nonpos (by omega)

end

/-- More than any number on the way. -/
theorem fits {z A : Int} (hz : |z| ≤ A) (hA : A ≤ 10 ^ 76) : |z| < 2 ^ (256 - 1) :=
  lt_of_le_of_lt (hz.trans hA) (by norm_num)

/-! ## The series -/

section

variable {s one zSquared : Int}

/-- The state of the series: the power so far and the sum, both of one sign. -/
structure SeriesInv (s one : Int) (rest : List Int) (state : Int × Int) : Prop where
  divisors : ∀ n ∈ rest, 0 < n
  num_nonneg : 0 ≤ s * state.1
  num_le : s * state.1 ≤ one
  sum_nonneg : 0 ≤ s * state.2
  sum_le : s * state.2 + rest.length * one ≤ 8 * one

theorem agree_lnTerm (hs : s = 1 ∨ s = -1) (hone : 0 < one) (hsmall : one ≤ 10 ^ 36)
    (hz : 0 ≤ zSquared) (hzle : zSquared ≤ one) (n : Int) (rest : List Int) (state : Int × Int)
    (h : SeriesInv s one (n :: rest) state) :
    Agree (fun ar _ => lnTerm ar one zSquared state n) (SeriesInv s one rest) := by
  obtain ⟨num, sum⟩ := state
  obtain ⟨hdivisors, hnum, hnumle, hsum, hsumle⟩ := h
  dsimp only at hnum hnumle hsum hsumle
  have hn : 0 < n := hdivisors n List.mem_cons_self
  have hproduct : 0 ≤ s * (num * zSquared) ∧ s * (num * zSquared) ≤ one * one := by
    rw [← Int.mul_assoc]
    exact ⟨mul_nonneg hnum hz, mul_le_mul hnumle hzle hz hone.le⟩
  have hproductAbs : |num * zSquared| ≤ one * one := (abs_of_sign hs hproduct.1).trans_le hproduct.2
  have hsquare : one * one ≤ 10 ^ 36 * 10 ^ 36 := mul_le_mul hsmall hsmall hone.le (by norm_num)
  -- the next power, and the term
  have hnext := sign_tdiv_range hs hproduct.1 hone
  have hnextle : s * (num * zSquared).tdiv one ≤ one := by
    rw [sign_mul_tdiv hs, Int.tdiv_eq_ediv_of_nonneg hproduct.1]
    exact Int.ediv_le_of_le_mul hone hproduct.2
  have hterm := sign_tdiv_range hs hnext.1 hn
  have hlength : ((n :: rest).length : Int) = rest.length + 1 := by
    rw [List.length_cons]
    push_cast
    rfl
  rw [hlength, Int.add_mul, Int.one_mul] at hsumle
  have hrest : 0 ≤ (rest.length : Int) * one := mul_nonneg (Int.natCast_nonneg _) hone.le
  have htotal : s * (sum + ((num * zSquared).tdiv one).tdiv n) =
      s * sum + s * ((num * zSquared).tdiv one).tdiv n := Int.mul_add ..
  unfold lnTerm
  refine (Agree.imul (fits hproductAbs (by omega))).bind_eq ?_
  refine (Agree.idiv hone.ne' (fits hproductAbs (by omega))).bind_eq ?_
  refine (Agree.idiv hn.ne' (fits ((abs_of_sign hs hnext.1).trans_le hnextle)
    (by omega))).bind_eq ?_
  refine (Agree.iadd (fits (A := 8 * one) ?_ (by omega))).bind_eq ?_
  · rw [abs_of_sign hs (by rw [htotal]; omega), htotal]
    omega
  refine Agree.pure ⟨fun k hk => hdivisors k (List.mem_cons_of_mem _ hk), hnext.1, hnextle, ?_, ?_⟩
  · dsimp only
    omega
  · dsimp only
    omega

/-- The quotient of the difference by the sum is of the sign of the difference, and at most one. -/
theorem fraction_range {x : Int} (hs : s = 1 ∨ s = -1) (hone : 0 < one) (hx : 0 ≤ x)
    (hsign : 0 ≤ s * (x - one)) :
    0 ≤ s * ((x - one) * one).tdiv (x + one) ∧ s * ((x - one) * one).tdiv (x + one) ≤ one ∧
      |(x - one) * one| ≤ (x + one) * one := by
  have hside : s * (x - one) ≤ x + one := by
    rcases hs with rfl | rfl <;> omega
  have hscaled : 0 ≤ s * ((x - one) * one) ∧ s * ((x - one) * one) ≤ (x + one) * one := by
    rw [← Int.mul_assoc]
    exact ⟨mul_nonneg hsign hone.le, mul_le_mul_of_nonneg_right hside hone.le⟩
  have hmore : 0 < x + one := by omega
  refine ⟨(sign_tdiv_range hs hscaled.1 hmore).1, ?_, ?_⟩
  · rw [sign_mul_tdiv hs, Int.tdiv_eq_ediv_of_nonneg hscaled.1]
    exact Int.ediv_le_of_le_mul hmore (by rw [Int.mul_comm one]; exact hscaled.2)
  · exact (abs_of_sign hs hscaled.1).trans_le hscaled.2

/-- The square of a number that is at most one is at most one again. -/
theorem square_range {z : Int} (hone : 0 < one) (hz : |z| ≤ one) :
    |z * z| ≤ one * one ∧ 0 ≤ (z * z).tdiv one ∧ (z * z).tdiv one ≤ one := by
  have hsquare : z * z ≤ one * one := by
    rw [← abs_mul_abs_self]
    exact mul_le_mul hz hz (abs_nonneg z) hone.le
  refine ⟨(abs_of_nonneg (mul_self_nonneg z)).trans_le hsquare, ?_⟩
  rw [Int.tdiv_eq_ediv_of_nonneg (mul_self_nonneg z)]
  exact ⟨Int.ediv_nonneg (mul_self_nonneg z) hone.le, Int.ediv_le_of_le_mul hone hsquare⟩

/-- The result is of the sign of the difference, and at most sixteen times one. -/
theorem agree_lnSeries {x : Int} {divisors : List Int} (hs : s = 1 ∨ s = -1) (hone : 0 < one)
    (hsmall : one ≤ 10 ^ 36) (hx : 0 ≤ x) (hxle : x ≤ 10 ^ 38) (hsign : 0 ≤ s * (x - one))
    (hdivisors : ∀ n ∈ divisors, 0 < n) (hlength : divisors.length ≤ 7) :
    Agree (fun ar _ => lnSeries ar x one divisors) fun r => 0 ≤ s * r ∧ s * r ≤ 16 * one := by
  obtain ⟨hz, hzle, hscaled⟩ := fraction_range hs hone hx hsign
  have hless : |x - one| ≤ 10 ^ 39 := abs_le.mpr ⟨by omega, by omega⟩
  have hmore : |x + one| ≤ 10 ^ 39 := abs_le.mpr ⟨by omega, by omega⟩
  have hwide : (x + one) * one ≤ 10 ^ 39 * 10 ^ 36 :=
    mul_le_mul (by omega) hsmall hone.le (by norm_num)
  have hunits : one * one ≤ 10 ^ 36 * 10 ^ 36 := mul_le_mul hsmall hsmall hone.le (by norm_num)
  unfold lnSeries
  refine (Agree.isub (fits hless (by norm_num))).bind_eq ?_
  refine (Agree.imul (fits (hscaled.trans hwide) (by norm_num))).bind_eq ?_
  refine (Agree.iadd (fits hmore (by norm_num))).bind_eq ?_
  refine (Agree.idiv (by omega) (fits (hscaled.trans hwide) (by norm_num))).bind_eq ?_
  generalize ((x - one) * one).tdiv (x + one) = z at hz hzle
  obtain ⟨hsquare, hquotient⟩ := square_range hone ((abs_of_sign hs hz).trans_le hzle)
  refine (Agree.imul (fits (hsquare.trans hunits) (by norm_num))).bind_eq ?_
  refine (Agree.idiv hone.ne' (fits (hsquare.trans hunits) (by norm_num))).bind_eq ?_
  have hstart : SeriesInv s one divisors (z, z) := by
    refine ⟨hdivisors, hz, hzle, hz, ?_⟩
    have hseven : (divisors.length : Int) * one ≤ 7 * one :=
      mul_le_mul_of_nonneg_right (by exact_mod_cast hlength) hone.le
    dsimp only
    omega
  refine (Agree.foldlM (agree_lnTerm hs hone hsmall hquotient.1 hquotient.2) divisors hstart).bind ?_
  rintro ⟨num, sum⟩ ⟨-, -, -, hsum, hsumle⟩
  dsimp only at hsum hsumle ⊢
  rw [List.length_nil, Int.natCast_zero, Int.zero_mul, Int.add_zero] at hsumle
  have htwice : s * (sum * 2) = s * sum * 2 := (Int.mul_assoc ..).symm
  refine (Agree.imul (fits (A := 16 * one) ?_ (by omega))).imp ?_
  · rw [abs_of_sign hs (by rw [htwice]; omega), htwice]
    omega
  · rintro _ rfl
    rw [htwice]
    omega

end

/-! ## Near one -/

theorem agree_ln36 {x : Int} (hx : 0 ≤ x) (hlt : x < one18) :
    Agree (fun ar _ => ln36 ar x) fun r => -(16 * 10 ^ 36) ≤ r ∧ r ≤ 0 := by
  unfold one18 at hlt
  unfold ln36
  refine (Agree.imul (fits (A := 10 ^ 36) ?_ (by norm_num))).bind_eq ?_
  · unfold one18
    rw [abs_of_nonneg (by omega)]
    omega
  unfold one18 one36
  refine (agree_lnSeries (.inr rfl) (by norm_num) (by norm_num) (by omega) (by omega) (by omega)
    (by decide) (by decide)).imp ?_
  intro r hr
  omega

/-! ## From one on -/

/-- The two largest powers of e are beyond the argument. -/
structure DivideInv (a : Int) (rest : List (Int × Int)) (state : Int × Int) : Prop where
  unchanged : state = (a, 0)
  beyond : ∀ power ∈ rest, a < power.2 * one18 ∧ power.2 * one18 ≤ 10 ^ 76

theorem agree_lnDivide {a : Int} (ha : 0 ≤ a) (power : Int × Int) (rest : List (Int × Int))
    (state : Int × Int) (h : DivideInv a (power :: rest) state) :
    Agree (fun ar _ => lnDivide ar state power) (DivideInv a rest) := by
  obtain ⟨rfl, hbeyond⟩ := h
  obtain ⟨hlt, hle⟩ := hbeyond power List.mem_cons_self
  unfold lnDivide
  refine (Agree.imul (fits (abs_le.mpr ⟨by omega, hle⟩) (by omega))).bind_eq ?_
  simp only [if_neg (Int.not_le.mpr hlt)]
  exact Agree.pure ⟨rfl, fun p hp => hbeyond p (List.mem_cons_of_mem _ hp)⟩

/-- The argument stays at one or above, and the sum of the powers below that of all. -/
structure ReduceInv (rest : List (Int × Int)) (state : Int × Int) : Prop where
  powers : ∀ power ∈ rest, 0 ≤ power.1 ∧ one20 ≤ power.2
  above : one20 ≤ state.1
  below : state.1 ≤ 10 ^ 38
  sum_nonneg : 0 ≤ state.2
  sum_le : state.2 + (rest.map Prod.fst).sum ≤ 6400 * one18

theorem agree_lnReduce (power : Int × Int) (rest : List (Int × Int)) (state : Int × Int)
    (h : ReduceInv (power :: rest) state) :
    Agree (fun ar _ => lnReduce ar state power) (ReduceInv rest) := by
  obtain ⟨x, p⟩ := power
  obtain ⟨a, sum⟩ := state
  obtain ⟨hpowers, habove, hbelow, hsum, hsumle⟩ := h
  obtain ⟨hx, hp⟩ := hpowers (x, p) List.mem_cons_self
  have hrest := fun power hpower => hpowers power (List.mem_cons_of_mem _ hpower)
  have hnonneg : 0 ≤ (rest.map Prod.fst).sum := List.sum_nonneg fun y hy => by
    obtain ⟨power, hpower, rfl⟩ := List.mem_map.mp hy
    exact (hrest power hpower).1
  rw [List.map_cons, List.sum_cons] at hsumle
  dsimp only at hx hp habove hbelow hsum hsumle
  have hone : 0 < one20 := by decide
  unfold lnReduce
  dsimp only
  by_cases htake : p ≤ a
  · simp only [if_pos htake]
    have hscaled : 0 ≤ a * one20 := mul_nonneg (by omega) hone.le
    have hscaledAbs : |a * one20| ≤ 10 ^ 38 * 10 ^ 20 := by
      rw [abs_of_nonneg hscaled]
      exact mul_le_mul hbelow (by decide) hone.le (by norm_num)
    refine (Agree.imul (fits hscaledAbs (by norm_num))).bind_eq ?_
    refine (Agree.idiv (by omega) (fits hscaledAbs (by norm_num))).bind_eq ?_
    have hlower : one20 ≤ (a * one20).tdiv p := by
      rw [Int.tdiv_eq_ediv_of_nonneg hscaled, Int.le_ediv_iff_mul_le (by omega), Int.mul_comm]
      exact mul_le_mul_of_nonneg_right htake hone.le
    have hupper : (a * one20).tdiv p ≤ a := by
      rw [Int.tdiv_eq_ediv_of_nonneg hscaled]
      refine Int.ediv_le_of_le_mul (by omega) ?_
      exact mul_le_mul_of_nonneg_left hp (by omega)
    have hsumAbs : |sum + x| ≤ 6400 * one18 := abs_le.mpr ⟨by unfold one18; omega, by omega⟩
    refine (Agree.iadd (fits hsumAbs (by decide))).bind_eq ?_
    refine Agree.pure ⟨hrest, hlower, hupper.trans hbelow, ?_, ?_⟩
    · dsimp only
      omega
    · dsimp only
      omega
  · simp only [if_neg htake]
    refine Agree.pure ⟨hrest, habove, hbelow, hsum, ?_⟩
    dsimp only
    omega

theorem agree_lnAbove {a : Int} (ha : one18 ≤ a) (hle : a ≤ 10 ^ 36) :
    Agree (fun ar _ => lnAbove ar a) fun r => 0 ≤ r ∧ r ≤ 10 ^ 20 := by
  unfold one18 at ha
  have hbeyond : DivideInv a [(x0, a0), (x1, a1)] (a, 0) := by
    refine ⟨rfl, fun power hpower => ?_⟩
    have hlarge : 10 ^ 36 < power.2 * one18 ∧ power.2 * one18 ≤ 10 ^ 76 := by
      revert power
      decide
    exact ⟨Int.lt_of_le_of_lt hle hlarge.1, hlarge.2⟩
  unfold lnAbove
  refine (Agree.foldlM (agree_lnDivide (by omega)) _ hbeyond).bind ?_
  rintro _ ⟨rfl, -⟩
  dsimp only
  refine (Agree.imul (by decide)).bind_eq ?_
  refine (Agree.imul (fits (A := 10 ^ 38) ?_ (by norm_num))).bind_eq ?_
  · rw [abs_of_nonneg (by omega)]
    omega
  have hpowers : (lnPowers.map Prod.fst).sum ≤ 6400 * one18 := by decide
  have hstart : ReduceInv lnPowers (a * 100, 0 * 100) := by
    refine ⟨by decide, ?_, ?_, Int.le_refl 0, (Int.zero_add _).trans_le hpowers⟩
    · unfold one20
      dsimp only
      omega
    · dsimp only
      omega
  refine (Agree.foldlM agree_lnReduce _ hstart).bind ?_
  rintro ⟨b, sum⟩ ⟨-, habove, hbelow, hsum, hsumle⟩
  unfold one20 at habove
  unfold one18 at hsumle
  rw [List.map_nil, List.sum_nil, Int.add_zero] at hsumle
  dsimp only at habove hbelow hsum hsumle ⊢
  unfold one20
  refine (agree_lnSeries (.inl rfl) (by norm_num) (by norm_num) (by omega) hbelow (by omega)
    (by decide) (by decide)).bind ?_
  intro r hr
  have htotal : |sum + r| ≤ 10 ^ 22 := abs_le.mpr ⟨by omega, by omega⟩
  refine (Agree.iadd (fits htotal (by norm_num))).bind_eq ?_
  refine (Agree.idiv (by decide) (fits htotal (by norm_num))).imp ?_
  rintro _ rfl
  rw [Int.tdiv_eq_ediv_of_nonneg (by omega)]
  omega

/-! ## The recursion -/

theorem ln_of_le {ar : Arith} {a : Int} {depth : Nat} (hdepth : 1 ≤ depth) (ha : one18 ≤ a) :
    ln ar depth a = lnAbove ar a := by
  obtain ⟨depth, rfl⟩ := Nat.exists_eq_add_of_le' hdepth
  exact if_neg (Int.not_lt.mpr ha)

/-- The logarithm of a number below one takes one more step. -/
theorem agree_ln {a : Int} (ha : 0 < a) (hlt : a < one18) :
    Agree (fun ar depth => ln ar depth a) fun r => -10 ^ 20 ≤ r ∧ r ≤ 0 := by
  have hstep : Agree (fun ar depth => do
      let square ← ar.imul 256 one18 one18
      let inverse ← ar.idiv 256 square a
      let result ← ln ar (depth - 1) inverse
      ar.ineg 256 result) fun r => -10 ^ 20 ≤ r ∧ r ≤ 0 := by
    refine (Agree.imul (by decide)).bind_eq ?_
    refine (Agree.idiv ha.ne' (by decide)).bind_eq ?_
    have hinverse : one18 ≤ (one18 * one18).tdiv a ∧ (one18 * one18).tdiv a ≤ 10 ^ 36 := by
      rw [Int.tdiv_eq_ediv_of_nonneg (by decide)]
      constructor
      · exact (Int.le_ediv_iff_mul_le ha).mpr (mul_le_mul_of_nonneg_left hlt.le (by decide))
      · exact Int.ediv_le_self a (by decide)
    refine ((agree_lnAbove hinverse.1 hinverse.2).congr fun ar depth _ hdepth =>
      ln_of_le (by omega) hinverse.1).bind ?_
    intro r hr
    refine (Agree.ineg (fits (A := 10 ^ 20) (abs_le.mpr ⟨by omega, hr.2⟩)
      (by norm_num))).imp ?_
    rintro _ rfl
    omega
  refine hstep.congr fun ar depth _ hdepth => ?_
  obtain ⟨depth, rfl⟩ := Nat.exists_eq_add_of_le' hdepth
  exact if_pos hlt

end Balancer.LogExpMath

end ArbBot
