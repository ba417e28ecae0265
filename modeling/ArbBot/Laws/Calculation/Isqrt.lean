import ArbBot.Calculation.V2
import ArbBot.Lib.NewtonSqrt
import ArbBot.Lib.Word
import Mathlib.Logic.Relation

/-!
# Integer square roots

The loop of `isqrt` is Newton's descent: the second iterate is the step from the first one, the
first one stays at or above the root, and no sum on the way exceeds the radicand and one. The one
radicand whose successor wraps is the greatest word: there the second iterate starts at zero, and
the loop divides by it.
-/

namespace ArbBot

open Lib Relation

variable {n x y : U256}

/-! ## The loop -/

/-- One pass through the loop of `isqrt`. -/
def IsqrtStep (n : U256) (s t : U256 × U256) : Prop :=
  s.2 < s.1 ∧ t = (s.2, (s.2 + n / s.2) >>> 1)

/-- The iterates the loop starts from. -/
def isqrtStart (n : U256) : U256 × U256 := (n, (n + 1) >>> 1)

/-- Nothing goes wrong on the way, and the result is the root: neither addition wraps, no division
is by zero, and the loop ends. The loop is left at once for zero. -/
structure IsqrtSound (n : U256) : Prop where
  start : n ≠ 0 → n.toNat + 1 < 2 ^ 256
  steps : n ≠ 0 → ∀ s, ReflTransGen (IsqrtStep n) (isqrtStart n) s → s.2 < s.1 →
    s.2 ≠ 0 ∧ s.2.toNat + (n / s.2).toNat < 2 ^ 256
  root : ∃ r, isqrt n = some r ∧ r.toNat * r.toNat ≤ n.toNat ∧
    n.toNat < (r.toNat + 1) * (r.toNat + 1)

/-- The second iterate is Newton's step from the first one, which is at least the root. -/
structure Descends (n x y : U256) : Prop where
  pos : 0 < x.toNat
  le : x.toNat ≤ n.toNat
  above : n.toNat < (x.toNat + 1) * (x.toNat + 1)
  step : y.toNat = newtonSqrt n.toNat x.toNat

theorem toNat_average (h : x.toNat + y.toNat < 2 ^ 256) :
    ((x + y) >>> 1).toNat = (x.toNat + y.toNat) / 2 := by
  rw [toNat_ushiftRight_eq_div, toNat_add_of_lt h, Nat.pow_one]

/-- Where the loop goes on it divides by an iterate other than zero, and the sum does not wrap. -/
theorem Descends.continues (h : Descends n x y) (hlt : y < x) (hn : n.toNat + 1 < 2 ^ 256) :
    y ≠ 0 ∧ y.toNat + (n / y).toNat < 2 ^ 256 := by
  have hpos : 0 < y.toNat := h.step ▸ newtonSqrt_pos h.pos (h.pos.trans_le h.le)
  have hle : y.toNat ≤ n.toNat := (BitVec.lt_def.mp hlt).le.trans h.le
  refine ⟨(BitVec.pos_iff_ne_zero y).mp hpos, ?_⟩
  rw [BitVec.toNat_udiv]
  exact (add_div_le_succ hpos hle).trans_lt hn

/-- **A pass keeps the descent.** -/
theorem Descends.next (h : Descends n x y) (hlt : y < x) (hn : n.toNat + 1 < 2 ^ 256) :
    Descends n y ((y + n / y) >>> 1) := by
  obtain ⟨hne, hfits⟩ := h.continues hlt hn
  refine ⟨toNat_pos hne, (BitVec.lt_def.mp hlt).le.trans h.le, ?_, ?_⟩
  · rw [h.step]
    exact lt_succ_newtonSqrt_sq h.pos
  · rw [toNat_average hfits, BitVec.toNat_udiv]
    rfl

theorem descends_start (hne : n ≠ 0) (hn : n.toNat + 1 < 2 ^ 256) :
    Descends n (isqrtStart n).1 (isqrtStart n).2 := by
  have hpos := toNat_pos hne
  refine ⟨hpos, Nat.le_refl _, by unfold isqrtStart; nlinarith only [hpos], ?_⟩
  have hone : (1 : U256).toNat = 1 := rfl
  rw [isqrtStart, toNat_average hn, hone, newtonSqrt, Nat.div_self hpos]

/-- The descent holds of every pair of iterates the loop comes to. -/
theorem Descends.run {s t : U256 × U256} (h : Descends n s.1 s.2) (hn : n.toNat + 1 < 2 ^ 256)
    (hrun : ReflTransGen (IsqrtStep n) s t) : Descends n t.1 t.2 := by
  induction hrun with
  | refl => exact h
  | tail _ hstep ih =>
    obtain ⟨hlt, rfl⟩ := hstep
    exact ih.next hlt hn

/-- **The loop ends at the root.** -/
theorem isqrtLoop_root (h : Descends n x y) (hn : n.toNat + 1 < 2 ^ 256) :
    ∃ r, isqrtLoop n x y = some r ∧ r.toNat * r.toNat ≤ n.toNat ∧
      n.toNat < (r.toNat + 1) * (r.toNat + 1) := by
  induction x, y using isqrtLoop.induct n with
  | case1 x hlt => exact absurd rfl (h.continues hlt hn).1
  | case2 x y hlt hne ih =>
    rw [isqrtLoop, dif_pos hlt, if_neg hne]
    exact ih (h.next hlt hn)
  | case3 x y hge =>
    rw [isqrtLoop, dif_neg hge]
    refine ⟨x, rfl, ?_, h.above⟩
    apply sq_le_of_le_newtonSqrt h.pos
    rw [← h.step]
    exact Nat.le_of_not_lt (mt BitVec.lt_def.mpr hge)

/-! ## The greatest word -/

/-- The sum with one wraps to zero, and the loop divides by it. -/
theorem isqrt_allOnes : isqrt (BitVec.allOnes 256) = none := by
  have hstart : (BitVec.allOnes 256 + 1) >>> 1 = (0 : U256) := by decide
  have hlt : (0 : U256) < BitVec.allOnes 256 := by decide
  rw [isqrt, if_neg (by decide), hstart, isqrtLoop, dif_pos hlt, if_pos rfl]

theorem isqrtSound_of_ne (hmax : n ≠ BitVec.allOnes 256) : IsqrtSound n := by
  have hn : n.toNat + 1 < 2 ^ 256 := by
    have hlt := n.isLt
    have hvalue : n.toNat ≠ 2 ^ 256 - 1 := fun h =>
      hmax (BitVec.eq_of_toNat_eq (h.trans BitVec.toNat_allOnes.symm))
    omega
  refine ⟨fun _ => hn, fun hne s hrun hlt => ?_, ?_⟩
  · exact ((descends_start hne hn).run hn hrun).continues hlt hn
  · unfold isqrt
    split
    · rename_i hzero
      rw [hzero]
      exact ⟨0, rfl, by decide, by decide⟩
    · rename_i hne
      exact isqrtLoop_root (descends_start hne hn) hn

/-- **`isqrt` is sound for every word but the greatest one.** -/
theorem isqrtSound_iff (n : U256) : IsqrtSound n ↔ n ≠ BitVec.allOnes 256 := by
  refine ⟨?_, isqrtSound_of_ne⟩
  rintro ⟨-, -, r, hroot, -⟩ rfl
  rw [isqrt_allOnes] at hroot
  cases hroot

/-- The root of the greatest word is not computed. -/
theorem not_isqrtSound_max : ¬ IsqrtSound (BitVec.allOnes 256) := by
  rintro ⟨-, -, r, hroot, -⟩
  rw [isqrt_allOnes] at hroot
  cases hroot

/-! ## The caller -/

/-- `optimal_v2_input` takes the root of a word divided by ten thousand, and ends. -/
theorem optimalV2Input_isSome (reserveIn reserveOut : U256) (feeFactor : UInt64) :
    (optimalV2Input reserveIn reserveOut feeFactor).isSome := by
  have hne : ∀ product : U256, product / 10000 ≠ BitVec.allOnes 256 := by
    intro product h
    have hvalue := congrArg BitVec.toNat h
    have htenthousand : (10000 : U256).toNat = 10000 := rfl
    rw [BitVec.toNat_udiv, htenthousand, BitVec.toNat_allOnes] at hvalue
    have hlt := product.isLt
    omega
  unfold optimalV2Input
  obtain ⟨r, hroot, -⟩ := (isqrtSound_of_ne
    (hne (reserveIn * reserveOut * BitVec.ofNat 256 feeFactor.toNat))).root
  dsimp only
  rw [hroot]
  rfl

end ArbBot
