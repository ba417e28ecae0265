import Mathlib.Algebra.Ring.Parity
import Mathlib.Data.BitVec
import Mathlib.Data.Nat.Factorization.Basic
import Mathlib.Data.Nat.ModEq
import Mathlib.Tactic.Linarith
import Mathlib.Tactic.Ring

/-!
# Division of a double word

The pieces of a division of a two-word number by a word that works on single words: the high word
of a product from two remainders, the lowest bit of a word, the merge of two shifted words, and
the inverse of an odd word by Newton's method, which squares its error in every round. A quotient
that is no word saturates at the largest one.
-/

namespace Lib

/-! ## Saturation -/

section Saturation

variable {modulus n d : Nat}

/-- The quotient, or the largest word where that does not fit. -/
def satDiv (modulus n d : Nat) : Nat := if n / d < modulus then n / d else modulus - 1

theorem satDiv_eq_div (h : n / d < modulus) : satDiv modulus n d = n / d := if_pos h

theorem satDiv_eq_top_iff (hd : 0 < d) (hmodulus : 0 < modulus) :
    satDiv modulus n d = modulus - 1 ↔ (modulus - 1) * d ≤ n := by
  rw [← Nat.le_div_iff_mul_le hd, satDiv]
  split <;> omega

/-- Saturated quotients are monotone. -/
theorem satDiv_le_satDiv {n' : Nat} (h : n ≤ n') : satDiv modulus n d ≤ satDiv modulus n' d := by
  have hle : n / d ≤ n' / d := Nat.div_le_div_right h
  unfold satDiv
  split <;> split <;> omega

end Saturation

/-! ## Inverses -/

section Inverse

variable {R : Type*} [CommRing R]

/-- So many rounds of Newton's method for the inverse of `d`, from `x` on. -/
def newtonInverse (d x : R) : Nat → R
  | 0 => x
  | rounds + 1 => newtonInverse d x rounds * (2 - d * newtonInverse d x rounds)

/-- **Every round squares the error.** -/
theorem newtonInverse_error (d x : R) (rounds : Nat) :
    1 - d * newtonInverse d x rounds = (1 - d * x) ^ 2 ^ rounds := by
  induction rounds with
  | zero => simp [newtonInverse]
  | succ rounds ih =>
    have hsquare : 1 - d * newtonInverse d x (rounds + 1) =
        (1 - d * newtonInverse d x rounds) ^ 2 := by
      simp only [newtonInverse]
      ring
    rw [hsquare, ih, ← pow_mul, pow_succ]

/-- An error that is a multiple of a nilpotent is gone after enough rounds. -/
theorem mul_newtonInverse {d x m : R} {rounds : Nat} (hdvd : m ∣ 1 - d * x)
    (hzero : m ^ 2 ^ rounds = 0) : d * newtonInverse d x rounds = 1 := by
  obtain ⟨q, hq⟩ := hdvd
  have herror := newtonInverse_error d x rounds
  rw [hq, mul_pow, hzero, zero_mul] at herror
  exact (sub_eq_zero.mp herror).symm

end Inverse

/-! ## The lowest bit -/

section LowestBit

variable {w t m : Nat} {x : BitVec w}

theorem getLsbD_of_toNat (h : x.toNat = 2 ^ t * m) (i : Nat) :
    x.getLsbD i = (decide (t ≤ i) && m.testBit (i - t)) := by
  rw [BitVec.getLsbD, h, Nat.testBit_two_pow_mul]

/-- **A word and its negative have the lowest bit in common**, and no other. -/
theorem neg_and_self (h : x.toNat = 2 ^ t * m) (hodd : Odd m) : -x &&& x = BitVec.twoPow w t := by
  have hbelow : ∀ j, j < t → x.getLsbD j = false := by
    intro j hj
    rw [getLsbD_of_toNat h, decide_eq_false (by omega), Bool.false_and]
  have hlowest : x.getLsbD t = true := by
    rw [getLsbD_of_toNat h, Nat.sub_self, Nat.testBit_zero]
    simpa using Nat.odd_iff.mp hodd
  apply BitVec.eq_of_getLsbD_eq
  intro i hi
  rw [BitVec.getLsbD_and, BitVec.getLsbD_neg, BitVec.getLsbD_twoPow]
  rcases Nat.lt_trichotomy i t with hlt | rfl | hgt
  · simp [hbelow i hlt, Nat.ne_of_gt hlt]
  · have hnone : ¬∃ j < i, x.getLsbD j = true := by
      rintro ⟨j, hj, hbit⟩
      rw [hbelow j hj] at hbit
      cases hbit
    simp [hlowest, hnone, hi]
  · have hsome : ∃ j < i, x.getLsbD j = true := ⟨t, hgt, hlowest⟩
    simp [hsome, hi, Nat.ne_of_lt hgt]

theorem exists_lowest_bit (hx : x ≠ 0) :
    ∃ t m, t < w ∧ Odd m ∧ x.toNat = 2 ^ t * m ∧ (-x &&& x).toNat = 2 ^ t := by
  have hne : x.toNat ≠ 0 := by
    intro hzero
    exact hx (BitVec.eq_of_toNat_eq hzero)
  obtain ⟨t, m, hodd, hvalue⟩ := Nat.exists_eq_two_pow_mul_odd hne
  have ht : t < w := by
    by_contra hle
    have hpow : 2 ^ w ≤ 2 ^ t := Nat.pow_le_pow_right (by decide) (Nat.not_lt.mp hle)
    have hm : 1 ≤ m := hodd.pos
    have hlt := x.isLt
    have hmul : 2 ^ t ≤ 2 ^ t * m := Nat.le_mul_of_pos_right _ hm
    omega
  refine ⟨t, m, ht, hodd, hvalue, ?_⟩
  rw [neg_and_self hvalue hodd, BitVec.toNat_twoPow, Nat.mod_eq_of_lt]
  exact Nat.pow_lt_pow_right (by decide) ht

end LowestBit

/-! ## High words -/

section Words

variable {B : Nat}

/-- **The high word of a product from two remainders**: it is what the one modulo the base less
one exceeds the low word by, with a wrap if it is the smaller. -/
theorem high_word {p : Nat} (hp : p ≤ (B - 1) * (B - 1)) (hB : 2 ≤ B) :
    p % (B - 1) + (if p % (B - 1) < p % B then B - 1 else 0) = p % B + p / B ∧
      p / B ≤ B - 2 := by
  obtain ⟨c, rfl⟩ := Nat.exists_eq_add_of_le' hB
  have hone : c + 2 - 1 = c + 1 := rfl
  rw [hone] at hp ⊢
  have hsplit := Nat.div_add_mod p (c + 2)
  have hhigh : p / (c + 2) ≤ c := by
    rw [← Nat.lt_succ_iff, Nat.div_lt_iff_lt_mul (by omega), Nat.succ_eq_add_one]
    nlinarith only [hp]
  have hlow : p % (c + 2) < c + 2 := Nat.mod_lt _ (by omega)
  have hmod : p % (c + 1) = (p / (c + 2) + p % (c + 2)) % (c + 1) := by
    conv_lhs => rw [← hsplit]
    have hadd : (c + 2) * (p / (c + 2)) + p % (c + 2) =
        (p / (c + 2) + p % (c + 2)) + (c + 1) * (p / (c + 2)) := by ring
    rw [hadd, Nat.add_mul_mod_self_left]
  refine ⟨?_, hhigh⟩
  generalize p / (c + 2) = high at *
  generalize p % (c + 2) = low at *
  by_cases hfit : high + low < c + 1
  · rw [hmod, Nat.mod_eq_of_lt hfit, if_neg (by omega)]
    omega
  · have hwrap : (high + low) % (c + 1) = high + low - (c + 1) := by
      rw [Nat.mod_eq_sub_mod (by omega), Nat.mod_eq_of_lt (by omega)]
    rw [hmod, hwrap, if_pos (by omega)]
    omega

end Words

/-- A shifted double word, put together from its parts. -/
theorem shifted_words {w t : Nat} (ht : t ≤ w) {high low : Nat} (hlow : low < 2 ^ w) :
    low / 2 ^ t ||| high * 2 ^ (w - t) % 2 ^ w = (high * 2 ^ w + low) / 2 ^ t % 2 ^ w := by
  have hsplit : 2 ^ w = 2 ^ t * 2 ^ (w - t) := by rw [← pow_add, Nat.add_sub_cancel' ht]
  have hpart : low / 2 ^ t < 2 ^ (w - t) := by
    rw [Nat.div_lt_iff_lt_mul (Nat.two_pow_pos t), mul_comm, ← hsplit]
    exact hlow
  have hdiv : (high * 2 ^ w + low) / 2 ^ t = high * 2 ^ (w - t) + low / 2 ^ t := by
    rw [hsplit, mul_left_comm, Nat.mul_add_div (Nat.two_pow_pos t)]
  have hmod : high * 2 ^ (w - t) % 2 ^ w = 2 ^ (w - t) * (high % 2 ^ t) := by
    rw [hsplit, mul_comm high, mul_comm (2 ^ t), Nat.mul_mod_mul_left]
  rw [hmod, Nat.or_comm, ← Nat.two_pow_add_eq_or_of_lt hpart, hdiv]
  have hrest : high * 2 ^ (w - t) = 2 ^ (w - t) * (high % 2 ^ t) + 2 ^ w * (high / 2 ^ t) := by
    conv_lhs => rw [← Nat.mod_add_div high (2 ^ t)]
    rw [hsplit]
    ring
  have hfits : 2 ^ (w - t) * (high % 2 ^ t) + low / 2 ^ t < 2 ^ w := by
    have hhigh : high % 2 ^ t < 2 ^ t := Nat.mod_lt _ (Nat.two_pow_pos t)
    have hsucc : 2 ^ (w - t) * (high % 2 ^ t + 1) ≤ 2 ^ (w - t) * 2 ^ t :=
      Nat.mul_le_mul_left _ hhigh
    rw [hsplit, mul_comm (2 ^ t)]
    rw [Nat.mul_add] at hsucc
    omega
  rw [hrest, Nat.add_right_comm, Nat.add_mul_mod_self_left, Nat.mod_eq_of_lt hfits]

end Lib
