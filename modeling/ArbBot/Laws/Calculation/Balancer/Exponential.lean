import ArbBot.Laws.Calculation.Balancer.Logarithm

/-!
# The exponential stays in range

For the exponents that a power of a number below one needs, which are between -41 and 0. `exp` of
the opposite number takes powers of e out of it, each of them half of the one before, so that what
is left is below the last of them and the product of the powers is below that of all.
-/

namespace ArbBot

namespace Balancer.LogExpMath

open Lib

/-! ## Powers of e -/

/-- A number below `x`, with a product of at most `product`, can go through the powers: each of
them is at least half of what is left before it, and the product that it leads to is in range. -/
def Halves : List (Int × Int) → Int → Int → Prop
  | [], x, product => x ≤ 25 * one18 ∧ product ≤ 10 ^ 48
  | power :: rest, x, product =>
    0 ≤ power.1 ∧ x ≤ 10 ^ 22 ∧ x ≤ 2 * power.1 ∧ one20 ≤ power.2 ∧ product * power.2 ≤ 10 ^ 76 ∧
      Halves rest power.1 (product * power.2 / one20)

theorem halves_expPowers : Halves expPowers (6400 * one18) one20 := by
  unfold expPowers
  simp only [Halves]
  decide

/-- What is left is below a bound, and so is the product, from which on the powers fit. -/
def ExpInv (rest : List (Int × Int)) (state : Int × Int) : Prop :=
  ∃ x product, Halves rest x product ∧ 0 ≤ state.1 ∧ state.1 < x ∧ one20 ≤ state.2 ∧
    state.2 ≤ product

theorem agree_expReduce (power : Int × Int) (rest : List (Int × Int)) (state : Int × Int)
    (h : ExpInv (power :: rest) state) :
    Agree (fun ar _ => expReduce ar state power) (ExpInv rest) := by
  obtain ⟨x, product⟩ := state
  obtain ⟨bound, most, ⟨hpower, hbound, hhalf, hfactor, hmost, hrest⟩, hx, hxlt, hproduct, hle⟩ := h
  obtain ⟨step, factor⟩ := power
  dsimp only at hpower hhalf hfactor hmost hrest hx hxlt hproduct hle
  have hone : 0 < one20 := by decide
  have hmostle : most ≤ most * factor / one20 := by
    rw [Int.le_ediv_iff_mul_le hone]
    exact mul_le_mul_of_nonneg_left hfactor (by omega)
  unfold expReduce
  dsimp only
  by_cases htake : step ≤ x
  · simp only [if_pos htake]
    have hscaled : 0 ≤ product * factor := mul_nonneg (by omega) (by omega)
    have hscaledle : product * factor ≤ most * factor := mul_le_mul_of_nonneg_right hle (by omega)
    have hscaledAbs : |product * factor| ≤ most * factor := (abs_of_nonneg hscaled).trans_le hscaledle
    refine (Agree.isub (fits (A := 10 ^ 22) (abs_le.mpr ⟨by omega, by omega⟩)
      (by norm_num))).bind_eq ?_
    refine (Agree.imul (fits hscaledAbs hmost)).bind_eq ?_
    refine (Agree.idiv hone.ne' (fits hscaledAbs hmost)).bind_eq ?_
    refine Agree.pure ⟨step, most * factor / one20, hrest, ?_, ?_, ?_, ?_⟩
    · dsimp only
      omega
    · dsimp only
      omega
    · rw [Int.tdiv_eq_ediv_of_nonneg hscaled, Int.le_ediv_iff_mul_le hone]
      exact mul_le_mul hproduct hfactor hone.le (by omega)
    · rw [Int.tdiv_eq_ediv_of_nonneg hscaled]
      exact Int.ediv_le_ediv hone hscaledle
  · simp only [if_neg htake]
    exact Agree.pure ⟨step, most * factor / one20, hrest, hx, by omega, hproduct, hle.trans hmostle⟩

/-! ## The series -/

/-- The term so far and the sum, of which every term adds at most a quarter. -/
structure TermInv (rest : List Int) (state : Int × Int) : Prop where
  divisors : ∀ n ∈ rest, 0 < n
  term_nonneg : 0 ≤ state.1
  term_le : state.1 ≤ 25 * one18
  sum_ge : one20 ≤ state.2
  sum_le : state.2 + rest.length * (25 * one18) ≤ 400 * one18

theorem agree_expTerm {x : Int} (hx : 0 ≤ x) (hxle : x ≤ 25 * one18) (n : Int) (rest : List Int)
    (state : Int × Int) (h : TermInv (n :: rest) state) :
    Agree (fun ar _ => expTerm ar x state n) (TermInv rest) := by
  obtain ⟨term, sum⟩ := state
  obtain ⟨hdivisors, hterm, htermle, hsum, hsumle⟩ := h
  have hn : 0 < n := hdivisors n List.mem_cons_self
  rw [List.length_cons] at hsumle
  push_cast at hsumle
  dsimp only at hterm htermle hsum hsumle
  unfold one18 at hxle htermle hsumle
  have hsumpos : 0 ≤ sum := le_trans (by decide) hsum
  have hproduct : 0 ≤ term * x := mul_nonneg hterm hx
  have hproductle : term * x ≤ 25000000000000000000 * 25000000000000000000 :=
    mul_le_mul (by omega) (by omega) hx (by norm_num)
  have hproductAbs : |term * x| ≤ 10 ^ 40 := abs_le.mpr ⟨by omega, by omega⟩
  have hnext : 0 ≤ (term * x).tdiv one20 ∧ (term * x).tdiv one20 ≤ 25000000000000000000 := by
    rw [Int.tdiv_eq_ediv_of_nonneg hproduct]
    unfold one20
    omega
  have hquotient : 0 ≤ ((term * x).tdiv one20).tdiv n ∧
      ((term * x).tdiv one20).tdiv n ≤ 25000000000000000000 := by
    rw [Int.tdiv_eq_ediv_of_nonneg hnext.1]
    exact ⟨Int.ediv_nonneg hnext.1 hn.le, (Int.ediv_le_self n hnext.1).trans hnext.2⟩
  unfold expTerm
  refine (Agree.imul (fits hproductAbs (by norm_num))).bind_eq ?_
  refine (Agree.idiv (by decide) (fits hproductAbs (by norm_num))).bind_eq ?_
  refine (Agree.idiv hn.ne' (fits (A := 10 ^ 40) (abs_le.mpr ⟨by omega, by omega⟩)
    (by norm_num))).bind_eq ?_
  refine (Agree.iadd (fits (A := 10 ^ 40) (abs_le.mpr ⟨by omega, by omega⟩)
    (by norm_num))).bind_eq ?_
  refine Agree.pure ⟨fun k hk => hdivisors k (List.mem_cons_of_mem _ hk), hquotient.1, ?_, ?_, ?_⟩
  · unfold one18
    exact hquotient.2
  · exact hsum.trans (le_add_of_nonneg_right hquotient.1)
  · unfold one18
    dsimp only
    omega

/-! ## `exp` -/

/-- The product of the powers and the sum of the series, scaled back. -/
theorem agree_scaleBack {product sum : Int} (hproduct : 10 ^ 20 ≤ product)
    (hproductle : product ≤ 10 ^ 48) (hsum : 10 ^ 20 ≤ sum) (hsumle : sum ≤ 400 * 10 ^ 18) :
    Agree (fun ar _ => do
      let scaled ← ar.imul 256 product sum
      let whole ← ar.idiv 256 scaled one20
      let result ← ar.imul 256 whole 1
      ar.idiv 256 result 100) fun r => one18 ≤ r ∧ r ≤ 10 ^ 47 := by
  have hscaled : 10 ^ 20 * 10 ^ 20 ≤ product * sum :=
    mul_le_mul hproduct hsum (by norm_num) (by omega)
  have hscaledle : product * sum ≤ 10 ^ 48 * (400 * 10 ^ 18) :=
    mul_le_mul hproductle hsumle (by omega) (by norm_num)
  have hscaledAbs : |product * sum| ≤ 10 ^ 75 := abs_le.mpr ⟨by omega, by omega⟩
  have hwhole : 10 ^ 20 ≤ (product * sum).tdiv one20 ∧ (product * sum).tdiv one20 ≤ 4 * 10 ^ 48 := by
    rw [Int.tdiv_eq_ediv_of_nonneg (by omega)]
    unfold one20
    omega
  have hresultAbs : |(product * sum).tdiv one20 * 1| ≤ 10 ^ 75 := abs_le.mpr ⟨by omega, by omega⟩
  refine (Agree.imul (fits hscaledAbs (by norm_num))).bind_eq ?_
  refine (Agree.idiv (by decide) (fits hscaledAbs (by norm_num))).bind_eq ?_
  refine (Agree.imul (fits hresultAbs (by norm_num))).bind_eq ?_
  refine (Agree.idiv (by decide) (fits hresultAbs (by norm_num))).imp ?_
  rintro _ rfl
  rw [Int.mul_one, Int.tdiv_eq_ediv_of_nonneg (by omega)]
  unfold one18
  omega

/-- The series starts in its invariant. -/
theorem termInv_start {rest : Int} (hrest : 0 ≤ rest) (hle : rest ≤ 25 * one18) :
    TermInv [2, 3, 4, 5, 6, 7, 8, 9, 10, 11, 12] (rest, one20 + rest) := by
  unfold one18 at hle
  refine ⟨by decide, hrest, ?_, ?_, ?_⟩
  · unfold one18
    exact hle
  · exact le_add_of_nonneg_right hrest
  · unfold one18 one20
    dsimp only [List.length_cons, List.length_nil]
    omega

theorem agree_expRest {x : Int} (hx : 0 ≤ x) (hle : x ≤ 41 * one18) :
    Agree (fun ar _ => expRest ar x 1) fun r => one18 ≤ r ∧ r ≤ 10 ^ 47 := by
  unfold one18 at hle
  unfold expRest
  refine (Agree.imul (fits (A := 10 ^ 22) (abs_le.mpr ⟨by omega, by omega⟩)
    (by norm_num))).bind_eq ?_
  have hstart : ExpInv expPowers (x * 100, one20) := by
    refine ⟨_, _, halves_expPowers, ?_, ?_, Int.le_refl _, Int.le_refl _⟩
    · dsimp only
      omega
    · unfold one18
      dsimp only
      omega
  refine (Agree.foldlM agree_expReduce _ hstart).bind ?_
  rintro ⟨rest, product⟩ ⟨bound, most, ⟨hbound, hmost⟩, hrest, hlt, hproduct, hproductle⟩
  dsimp only at hrest hlt hproduct hproductle ⊢
  have hrestle : rest ≤ 25 * one18 := by omega
  unfold one18 at hbound
  refine (Agree.iadd (fits (A := 10 ^ 22) (abs_le.mpr ⟨?_, ?_⟩)
    (by norm_num))).bind_eq ?_
  · unfold one20
    omega
  · unfold one20
    omega
  refine (Agree.foldlM (agree_expTerm hrest hrestle) _ (termInv_start hrest hrestle)).bind ?_
  rintro ⟨term, sum⟩ ⟨-, -, -, hsum, hsumle⟩
  rw [List.length_nil, Int.natCast_zero, Int.zero_mul, Int.add_zero] at hsumle
  exact agree_scaleBack hproduct (hproductle.trans hmost) hsum hsumle

theorem exp_of_nonneg {ar : Arith} {x : Int} {depth : Nat} (hdepth : 1 ≤ depth) (hx : 0 ≤ x)
    (hle : x ≤ 41 * one18) : exp ar depth x = expRest ar x 1 := by
  obtain ⟨depth, rfl⟩ := Nat.exists_eq_add_of_le' hdepth
  unfold one18 at hle
  have hbounds : ¬ (x < minNaturalExponent ∨ maxNaturalExponent < x) := by
    unfold minNaturalExponent maxNaturalExponent
    omega
  have hx0 : ¬ x0 ≤ x := by
    unfold x0
    omega
  have hx1 : ¬ x1 ≤ x := by
    unfold x1
    omega
  rw [exp, if_neg hbounds, if_neg (Int.not_lt.mpr hx), expPositive, if_neg hx0, if_neg hx1]

/-- The exponential of a negative number takes one more step. -/
theorem agree_exp {x : Int} (hlow : minNaturalExponent ≤ x) (hx : x ≤ 0) :
    Agree (fun ar depth => exp ar depth x) fun r => 0 ≤ r ∧ r ≤ 10 ^ 47 := by
  have hrange : 0 ≤ -x ∧ -x ≤ 41 * one18 := by
    unfold minNaturalExponent at hlow
    unfold one18
    omega
  rcases eq_or_lt_of_le hx with rfl | hneg
  · refine ((agree_expRest (Int.le_refl 0) (by decide)).congr fun ar depth _ hdepth =>
      exp_of_nonneg (by omega) (Int.le_refl 0) (by decide)).imp ?_
    rintro r ⟨hlow, hhigh⟩
    unfold one18 at hlow
    omega
  have hstep : Agree (fun ar depth => do
      let square ← ar.imul 256 one18 one18
      let flipped ← ar.ineg 256 x
      let inverse ← exp ar (depth - 1) flipped
      ar.idiv 256 square inverse) fun r => 0 ≤ r ∧ r ≤ 10 ^ 47 := by
    refine (Agree.imul (by decide)).bind_eq ?_
    unfold one18 at hrange
    refine (Agree.ineg (fits (A := 10 ^ 22) (abs_le.mpr ⟨by omega, by omega⟩)
      (by norm_num))).bind_eq ?_
    refine ((agree_expRest hrange.1 hrange.2).congr fun ar depth _ hdepth =>
      exp_of_nonneg (by omega) hrange.1 hrange.2).bind ?_
    rintro inverse ⟨hinverse, -⟩
    have hpos : 0 < inverse := Int.lt_of_lt_of_le (by decide) hinverse
    refine (Agree.idiv hpos.ne' (by decide)).imp ?_
    rintro _ rfl
    rw [Int.tdiv_eq_ediv_of_nonneg (by decide)]
    exact ⟨Int.ediv_nonneg (by decide) hpos.le, (Int.ediv_le_self _ (by decide)).trans (by decide)⟩
  refine hstep.congr fun ar depth _ hdepth => ?_
  obtain ⟨depth, rfl⟩ := Nat.exists_eq_add_of_le' hdepth
  have hbounds : ¬ (x < minNaturalExponent ∨ maxNaturalExponent < x) := by
    unfold maxNaturalExponent
    omega
  rw [exp, if_neg hbounds, if_pos hneg]
  rfl

end Balancer.LogExpMath

end ArbBot
