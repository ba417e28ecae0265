import Mathlib.Algebra.Group.Nat.Defs
import Mathlib.Tactic.Basic
import Mathlib.Tactic.ByContra

/-!
# Bit scans

The greatest number at or below a bound, and the least one at or above it, at which a predicate
holds; and how a word whose bits are the predicate answers both by masking it and finding its
highest or its lowest bit.
-/

namespace Lib

/-- The greatest number up to a bound at which the predicate holds. -/
def lastBelow (p : Nat → Bool) : Nat → Option Nat
  | 0 => if p 0 then some 0 else none
  | n + 1 => if p (n + 1) then some (n + 1) else lastBelow p n

/-- The least number at which the predicate holds, among so many from a start on. -/
def firstFrom (p : Nat → Bool) : Nat → Nat → Option Nat
  | 0, _ => none
  | count + 1, start => if p start then some start else firstFrom p count (start + 1)

variable {p q : Nat → Bool} {n i count start : Nat}

theorem lastBelow_eq_some :
    lastBelow p n = some i ↔ i ≤ n ∧ p i = true ∧ ∀ j, i < j → j ≤ n → p j = false := by
  induction n with
  | zero =>
    unfold lastBelow
    split
    · rename_i h
      constructor
      · rintro ⟨⟩
        exact ⟨Nat.le_refl _, h, fun j hlow hhigh => absurd hlow (by omega)⟩
      · rintro ⟨hle, -, -⟩
        rw [Nat.le_zero.1 hle]
    · rename_i h
      refine iff_of_false (fun h => nomatch h) ?_
      rintro ⟨hle, hp, -⟩
      exact h (Nat.le_zero.1 hle ▸ hp)
  | succ n ih =>
    unfold lastBelow
    split
    · rename_i h
      constructor
      · rintro ⟨⟩
        exact ⟨Nat.le_refl _, h, fun j hlow hhigh => absurd hlow (by omega)⟩
      · rintro ⟨hle, -, habove⟩
        by_contra hne
        have hlt : i < n + 1 := Nat.lt_of_le_of_ne hle fun he => hne (congrArg some he.symm)
        rw [habove (n + 1) hlt (Nat.le_refl _)] at h
        cases h
    · rename_i h
      rw [ih]
      constructor
      · rintro ⟨hle, hp, habove⟩
        refine ⟨by omega, hp, fun j hlow hhigh => ?_⟩
        rcases Nat.lt_or_eq_of_le hhigh with hlt | rfl
        · exact habove j hlow (by omega)
        · exact Bool.eq_false_iff.2 h
      · rintro ⟨hle, hp, habove⟩
        have hne : i ≠ n + 1 := fun he => h (he ▸ hp)
        exact ⟨by omega, hp, fun j hlow hhigh => habove j hlow (by omega)⟩

theorem lastBelow_eq_none : lastBelow p n = none ↔ ∀ j, j ≤ n → p j = false := by
  constructor
  · intro hnone j hj
    induction n with
    | zero =>
      rw [Nat.le_zero.1 hj]
      unfold lastBelow at hnone
      split at hnone
      · cases hnone
      · rename_i h
        exact Bool.eq_false_iff.2 h
    | succ n ih =>
      unfold lastBelow at hnone
      split at hnone
      · cases hnone
      · rename_i h
        rcases Nat.lt_or_eq_of_le hj with hlt | rfl
        · exact ih hnone (by omega)
        · exact Bool.eq_false_iff.2 h
  · intro hall
    cases hfound : lastBelow p n with
    | none => rfl
    | some i =>
      obtain ⟨hle, hp, -⟩ := lastBelow_eq_some.1 hfound
      rw [hall i hle] at hp
      cases hp

theorem firstFrom_eq_some :
    firstFrom p count start = some i ↔
      start ≤ i ∧ i < start + count ∧ p i = true ∧ ∀ j, start ≤ j → j < i → p j = false := by
  induction count generalizing start with
  | zero =>
    refine iff_of_false (fun h => nomatch h) ?_
    rintro ⟨hlow, hhigh, -⟩
    omega
  | succ count ih =>
    unfold firstFrom
    split
    · rename_i h
      constructor
      · rintro ⟨⟩
        exact ⟨Nat.le_refl _, by omega, h, fun j hlow hhigh => absurd hlow (by omega)⟩
      · rintro ⟨hle, -, -, hbelow⟩
        by_contra hne
        have hlt : start < i := Nat.lt_of_le_of_ne hle fun he => hne (congrArg some he)
        rw [hbelow start (Nat.le_refl _) hlt] at h
        cases h
    · rename_i h
      rw [ih]
      constructor
      · rintro ⟨hlow, hhigh, hp, hbelow⟩
        refine ⟨by omega, by omega, hp, fun j hj hlt => ?_⟩
        rcases Nat.eq_or_lt_of_le hj with rfl | hgt
        · exact Bool.eq_false_iff.2 h
        · exact hbelow j hgt hlt
      · rintro ⟨hlow, hhigh, hp, hbelow⟩
        have hne : start ≠ i := fun he => h (he ▸ hp)
        exact ⟨by omega, by omega, hp, fun j hj hlt => hbelow j (by omega) hlt⟩

theorem firstFrom_eq_none :
    firstFrom p count start = none ↔ ∀ j, start ≤ j → j < start + count → p j = false := by
  constructor
  · intro hnone j hlow hhigh
    by_contra hp
    induction count generalizing start with
    | zero => omega
    | succ count ih =>
      unfold firstFrom at hnone
      split at hnone
      · cases hnone
      · rename_i h
        have hne : start ≠ j := fun he => hp (he ▸ Bool.eq_false_iff.2 h)
        exact ih hnone (by omega) (by omega)
  · intro hall
    cases hfound : firstFrom p count start with
    | none => rfl
    | some i =>
      obtain ⟨hlow, hhigh, hp, -⟩ := firstFrom_eq_some.1 hfound
      rw [hall i hlow hhigh] at hp
      cases hp

/-! ## In a word -/

section

variable {w : Nat} {x : BitVec w}

/-- The highest bit of a word that is masked to the bits up to a bound. -/
theorem lastBelow_of_mask
    (hmask : ∀ j, x.getLsbD j = (p j && decide (j ≤ n))) :
    lastBelow p n = if x = 0 then none else some x.toNat.log2 := by
  split
  · rename_i hzero
    rw [lastBelow_eq_none]
    intro j hj
    have hbit := hmask j
    rw [hzero] at hbit
    simpa [hj] using hbit.symm
  · rename_i hne
    have hpos : x.toNat ≠ 0 := fun he => hne (BitVec.eq_of_toNat_eq he)
    have htop : x.getLsbD x.toNat.log2 = true := Nat.testBit_log2 hpos
    have hbit := hmask x.toNat.log2
    rw [htop, eq_comm, Bool.and_eq_true, decide_eq_true_iff] at hbit
    rw [lastBelow_eq_some]
    refine ⟨hbit.2, hbit.1, fun j hlow hhigh => ?_⟩
    have hclear : x.getLsbD j = false :=
      Nat.testBit_lt_two_pow ((Nat.log2_lt hpos).1 hlow)
    rw [hmask j, decide_eq_true hhigh, Bool.and_true] at hclear
    exact hclear

/-- The lowest bit of a word that is masked to the bits from a start on. -/
theorem firstFrom_of_mask {m : Nat} (hstart : m ≤ w)
    (hmask : ∀ j, j < w → x.getLsbD j = (p j && decide (m ≤ j))) :
    firstFrom p (w - m) m = if x = 0 then none else some x.ctz.toNat := by
  split
  · rename_i hzero
    rw [firstFrom_eq_none]
    intro j hlow hhigh
    have hbit := hmask j (by omega)
    rw [hzero] at hbit
    simpa [hlow] using hbit.symm
  · rename_i hne
    have htop := BitVec.getLsbD_true_ctz_of_ne_zero hne
    have hlt : x.ctz.toNat < w := BitVec.lt_of_getLsbD htop
    have hbit := hmask _ hlt
    rw [htop, eq_comm, Bool.and_eq_true, decide_eq_true_iff] at hbit
    rw [firstFrom_eq_some]
    refine ⟨hbit.2, by omega, hbit.1, fun j hlow hhigh => ?_⟩
    have hclear := BitVec.getLsbD_false_of_lt_ctz hhigh
    rw [hmask j (by omega), decide_eq_true hlow, Bool.and_true] at hclear
    exact hclear

end

end Lib
