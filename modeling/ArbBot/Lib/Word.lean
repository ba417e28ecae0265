import Mathlib.Algebra.Group.Nat.Defs
import Mathlib.Tactic.Basic

/-!
# Word arithmetic that does not wrap

Saturating operations on 64-bit words, which stop at the ends of the word, and checked operations
on words of any width, which give no value where the exact result leaves the word. Each checked
operation comes with the exact value of its result.
-/

namespace Lib

/-- The sum, or the largest word. -/
def saturatingAdd (a b : UInt64) : UInt64 := UInt64.ofNat (min (a.toNat + b.toNat) (2 ^ 64 - 1))

/-- The difference, or zero. -/
def saturatingSub (a b : UInt64) : UInt64 := UInt64.ofNat (a.toNat - b.toNat)

/-- The product, or the largest word. -/
def saturatingMul (a b : UInt64) : UInt64 := UInt64.ofNat (min (a.toNat * b.toNat) (2 ^ 64 - 1))

variable {w : Nat}

/-- The sum, when it fits. -/
def checkedAdd (a b : BitVec w) : Option (BitVec w) :=
  if a.toNat + b.toNat < 2 ^ w then some (a + b) else none

/-- The difference, when it is not negative. -/
def checkedSub (a b : BitVec w) : Option (BitVec w) :=
  if b.toNat ≤ a.toNat then some (a - b) else none

/-- The product, when it fits. -/
def checkedMul (a b : BitVec w) : Option (BitVec w) :=
  if a.toNat * b.toNat < 2 ^ w then some (a * b) else none

/-- The quotient by a divisor other than zero. -/
def checkedDiv (a b : BitVec w) : Option (BitVec w) := if b = 0 then none else some (a / b)

/-! ## Exact values -/

theorem toNat_max (a b : UInt64) : (max a b).toNat = max a.toNat b.toNat := by
  change (if a ≤ b then b else a).toNat = _
  split <;> rename_i h <;> rw [UInt64.le_iff_toNat_le] at h <;> omega

theorem le_max_word (a b : UInt64) : a ≤ max a b := by
  rw [UInt64.le_iff_toNat_le, toNat_max]
  exact Nat.le_max_left _ _

theorem toNat_min (a b : UInt64) : (min a b).toNat = min a.toNat b.toNat := by
  change (if a ≤ b then a else b).toNat = _
  split <;> rename_i h <;> rw [UInt64.le_iff_toNat_le] at h <;> omega

@[simp] theorem toNat_saturatingAdd (a b : UInt64) :
    (saturatingAdd a b).toNat = min (a.toNat + b.toNat) (2 ^ 64 - 1) := by
  rw [saturatingAdd, UInt64.toNat_ofNat']
  exact Nat.mod_eq_of_lt (Nat.lt_of_le_of_lt (Nat.min_le_right ..) (by decide))

@[simp] theorem toNat_saturatingSub (a b : UInt64) :
    (saturatingSub a b).toNat = a.toNat - b.toNat := by
  rw [saturatingSub, UInt64.toNat_ofNat']
  exact Nat.mod_eq_of_lt (Nat.lt_of_le_of_lt (Nat.sub_le ..) a.toNat_lt)

@[simp] theorem toNat_saturatingMul (a b : UInt64) :
    (saturatingMul a b).toNat = min (a.toNat * b.toNat) (2 ^ 64 - 1) := by
  rw [saturatingMul, UInt64.toNat_ofNat']
  exact Nat.mod_eq_of_lt (Nat.lt_of_le_of_lt (Nat.min_le_right ..) (by decide))

variable {a b c : BitVec w}

theorem toNat_pos (h : a ≠ 0) : 0 < a.toNat :=
  Nat.pos_of_ne_zero fun hzero => h (BitVec.eq_of_toNat_eq (by simpa using hzero))

theorem toNat_ofNat_of_lt {n : Nat} (h : n < 2 ^ w) : (BitVec.ofNat w n).toNat = n :=
  (BitVec.toNat_ofNat n w).trans (Nat.mod_eq_of_lt h)

theorem toNat_add_of_lt (h : a.toNat + b.toNat < 2 ^ w) : (a + b).toNat = a.toNat + b.toNat := by
  rw [BitVec.toNat_add, Nat.mod_eq_of_lt h]

theorem toNat_mul_of_lt (h : a.toNat * b.toNat < 2 ^ w) : (a * b).toNat = a.toNat * b.toNat := by
  rw [BitVec.toNat_mul, Nat.mod_eq_of_lt h]

theorem toNat_ushiftRight_eq_div (a : BitVec w) (n : Nat) : (a >>> n).toNat = a.toNat / 2 ^ n := by
  rw [BitVec.toNat_ushiftRight, Nat.shiftRight_eq_div_pow]

theorem checkedAdd_eq_some : checkedAdd a b = some c ↔ c.toNat = a.toNat + b.toNat := by
  unfold checkedAdd
  constructor
  · intro h
    split at h
    · cases h
      exact toNat_add_of_lt ‹_›
    · cases h
  · intro h
    have hfit : a.toNat + b.toNat < 2 ^ w := h ▸ c.isLt
    rw [if_pos hfit]
    refine congrArg some (BitVec.eq_of_toNat_eq ?_)
    rw [toNat_add_of_lt hfit, h]

theorem checkedSub_eq_some : checkedSub a b = some c ↔ c.toNat + b.toNat = a.toNat := by
  unfold checkedSub
  constructor
  · intro h
    split at h
    · cases h
      rw [BitVec.toNat_sub_of_le (BitVec.le_def.mpr ‹_›)]
      omega
    · cases h
  · intro h
    have hle : b.toNat ≤ a.toNat := by omega
    rw [if_pos hle]
    refine congrArg some (BitVec.eq_of_toNat_eq ?_)
    rw [BitVec.toNat_sub_of_le (BitVec.le_def.mpr hle)]
    omega

theorem checkedMul_eq_some : checkedMul a b = some c ↔ c.toNat = a.toNat * b.toNat := by
  unfold checkedMul
  constructor
  · intro h
    split at h
    · cases h
      exact toNat_mul_of_lt ‹_›
    · cases h
  · intro h
    have hfit : a.toNat * b.toNat < 2 ^ w := h ▸ c.isLt
    rw [if_pos hfit]
    refine congrArg some (BitVec.eq_of_toNat_eq ?_)
    rw [toNat_mul_of_lt hfit, h]

theorem exists_checkedMul (h : a.toNat * b.toNat < 2 ^ w) :
    ∃ c, checkedMul a b = some c ∧ c.toNat = a.toNat * b.toNat :=
  ⟨a * b, if_pos h, toNat_mul_of_lt h⟩

theorem checkedMul_eq_none (h : 2 ^ w ≤ a.toNat * b.toNat) : checkedMul a b = none :=
  if_neg (Nat.not_lt.mpr h)

theorem checkedDiv_eq_some :
    checkedDiv a b = some c ↔ 0 < b.toNat ∧ c.toNat = a.toNat / b.toNat := by
  have hzero : b = 0 ↔ b.toNat = 0 := BitVec.toNat_inj.symm.trans (by simp)
  unfold checkedDiv
  constructor
  · intro h
    split at h
    · cases h
    · cases h
      exact ⟨Nat.pos_of_ne_zero (mt hzero.mpr ‹_›), BitVec.toNat_udiv⟩
  · rintro ⟨hb, h⟩
    rw [if_neg (mt hzero.mp (Nat.ne_of_gt hb))]
    refine congrArg some (BitVec.eq_of_toNat_eq ?_)
    rw [h, BitVec.toNat_udiv]

end Lib
