import ArbBot.Lib.Signed
import Mathlib.Algebra.Order.Group.Abs
import Mathlib.Algebra.Order.Ring.Abs
import Mathlib.Algebra.Order.Ring.Int

/-!
# Computations that stay in range

A computation on machine integers, written once over what the machine makes of the exact result of
an operation: a release build wraps, a checked one gives no value. Where no exact result on the way
leaves the range of its type, all machines that are exact in range compute one value, however deep
they allow recursions to go beyond a bound; the rules of this module find it by going through the
computation.
-/

namespace Lib

/-- What a machine makes of the exact result of an unsigned and of a signed operation of some
width. -/
structure Arith where
  word : Nat → Int → Option Nat
  int : Nat → Int → Option Int

namespace Arith

/-- The operations wrap. -/
def release : Arith where
  word w z := some (z % 2 ^ w).toNat
  int w z := some (wrapInt w z)

/-- An operation out of range gives no value. -/
def checked : Arith where
  word w z := if 0 ≤ z ∧ z < 2 ^ w then some z.toNat else none
  int := checkedInt

/-! ## Operations -/

variable (ar : Arith) (w : Nat)

def add (a b : Nat) : Option Nat := ar.word w (a + b)
def sub (a b : Nat) : Option Nat := ar.word w (a - b)
def mul (a b : Nat) : Option Nat := ar.word w (a * b)
def div (a b : Nat) : Option Nat := if b = 0 then none else some (a / b)
def pow (a b : Nat) : Option Nat := ar.word w (a ^ b)

def iadd (a b : Int) : Option Int := ar.int w (a + b)
def isub (a b : Int) : Option Int := ar.int w (a - b)
def imul (a b : Int) : Option Int := ar.int w (a * b)
def ineg (a : Int) : Option Int := ar.int w (-a)
def idiv (a b : Int) : Option Int := if b = 0 then none else ar.int w (a.tdiv b)
def irem (a b : Int) : Option Int := if b = 0 then none else ar.int w (a.tmod b)

/-- Exact where the result is in range. -/
structure IsExact : Prop where
  word : ∀ (w : Nat) (z : Int), 0 ≤ z → z < 2 ^ w → ar.word w z = some z.toNat
  int : ∀ (w : Nat) (z : Int), 0 < w → -2 ^ (w - 1) ≤ z → z < 2 ^ (w - 1) → ar.int w z = some z

theorem release_isExact : release.IsExact where
  word w z hlow hhigh := by
    show some (z % 2 ^ w).toNat = some z.toNat
    rw [Int.emod_eq_of_lt hlow hhigh]
  int w z hw hlow hhigh := congrArg some (wrapInt_of_range hlow hhigh hw)

theorem checked_isExact : checked.IsExact where
  word _ _ hlow hhigh := if_pos ⟨hlow, hhigh⟩
  int _ _ _ hlow hhigh := checkedInt_eq_some.mpr ⟨rfl, hlow, hhigh⟩

end Arith

/-! ## One value -/

/-- Every exact arithmetic computes one value, from a depth of two on, and it has the property. -/
def Agree {α : Type} (c : Arith → Nat → Option α) (P : α → Prop) : Prop :=
  ∃ a, P a ∧ ∀ ar depth, ar.IsExact → 2 ≤ depth → c ar depth = some a

namespace Agree

variable {α β γ : Type} {c : Arith → Nat → Option α} {P Q : α → Prop}

theorem pure {a : α} (h : P a) : Agree (fun _ _ => some a) P := ⟨a, h, fun _ _ _ _ => rfl⟩

theorem imp (hc : Agree c P) (h : ∀ a, P a → Q a) : Agree c Q := by
  obtain ⟨a, ha, heq⟩ := hc
  exact ⟨a, h a ha, heq⟩

theorem bind {f : Arith → Nat → α → Option β} {R : β → Prop} (hc : Agree c P)
    (hf : ∀ a, P a → Agree (fun ar depth => f ar depth a) R) :
    Agree (fun ar depth => c ar depth >>= f ar depth) R := by
  obtain ⟨a, ha, heq⟩ := hc
  obtain ⟨b, hb, hrest⟩ := hf a ha
  refine ⟨b, hb, fun ar depth hexact hdepth => ?_⟩
  show (c ar depth).bind (f ar depth) = some b
  rw [heq ar depth hexact hdepth, Option.bind_some]
  exact hrest ar depth hexact hdepth

/-- What follows a computation of a known value goes on from that value. -/
theorem bind_eq {f : Arith → Nat → α → Option β} {R : β → Prop} {a : α} (hc : Agree c (· = a))
    (hf : Agree (fun ar depth => f ar depth a) R) :
    Agree (fun ar depth => c ar depth >>= f ar depth) R := by
  apply hc.bind
  intro b hb
  subst hb
  exact hf

/-- A computation that all exact arithmetics do alike. -/
theorem congr {c' : Arith → Nat → Option α} (hc : Agree c P)
    (h : ∀ ar depth, ar.IsExact → 2 ≤ depth → c' ar depth = c ar depth) : Agree c' P := by
  obtain ⟨a, ha, heq⟩ := hc
  refine ⟨a, ha, fun ar depth hexact hdepth => ?_⟩
  rw [h ar depth hexact hdepth, heq ar depth hexact hdepth]

/-- A loop over a list, with an invariant for what is left of it. -/
theorem foldlM {f : Arith → Nat → β → γ → Option β} {Inv : List γ → β → Prop}
    (hstep : ∀ x rest s, Inv (x :: rest) s → Agree (fun ar depth => f ar depth s x) (Inv rest))
    (l : List γ) {s : β} (h : Inv l s) :
    Agree (fun ar depth => l.foldlM (f ar depth) s) (Inv []) := by
  induction l generalizing s with
  | nil => exact pure h
  | cons x rest ih =>
    simp only [List.foldlM_cons]
    exact (hstep x rest s h).bind fun t ht => ih ht

/-! ## Operations in range -/

section Word

variable {w m n k : Nat} {z : Int}

theorem word (hz : z = k) (hfits : k < 2 ^ w) : Agree (fun ar _ => ar.word w z) (· = k) := by
  subst hz
  have hhigh : (k : Int) < 2 ^ w := by exact_mod_cast hfits
  exact ⟨k, rfl, fun _ _ hexact _ => hexact.word w k (Int.natCast_nonneg k) hhigh⟩

theorem add (h : m + n < 2 ^ w) : Agree (fun ar _ => ar.add w m n) (· = m + n) :=
  word (Int.natCast_add m n).symm h

theorem sub (hle : n ≤ m) (hm : m < 2 ^ w) : Agree (fun ar _ => ar.sub w m n) (· = m - n) :=
  word (Int.natCast_sub hle).symm (Nat.lt_of_le_of_lt (Nat.sub_le m n) hm)

theorem mul (h : m * n < 2 ^ w) : Agree (fun ar _ => ar.mul w m n) (· = m * n) :=
  word (Int.natCast_mul m n).symm h

theorem pow (h : m ^ n < 2 ^ w) : Agree (fun ar _ => ar.pow w m n) (· = m ^ n) :=
  word (Int.natCast_pow m n).symm h

theorem div (h : 0 < n) : Agree (fun _ _ => Arith.div m n) (· = m / n) :=
  ⟨_, rfl, fun _ _ _ _ => if_neg h.ne'⟩

end Word

section Int

variable {w : Nat} [NeZero w] {a b z : Int}

theorem int (hz : |z| < 2 ^ (w - 1)) : Agree (fun ar _ => ar.int w z) (· = z) := by
  obtain ⟨hlow, hhigh⟩ := abs_lt.mp hz
  exact ⟨z, rfl, fun _ _ hexact _ => hexact.int w z (NeZero.pos w) hlow.le hhigh⟩

theorem iadd (h : |a + b| < 2 ^ (w - 1)) :
    Agree (fun ar _ => ar.iadd w a b) (· = a + b) := int h

theorem isub (h : |a - b| < 2 ^ (w - 1)) :
    Agree (fun ar _ => ar.isub w a b) (· = a - b) := int h

theorem imul (h : |a * b| < 2 ^ (w - 1)) :
    Agree (fun ar _ => ar.imul w a b) (· = a * b) := int h

theorem ineg (h : |a| < 2 ^ (w - 1)) :
    Agree (fun ar _ => ar.ineg w a) (· = -a) := int (abs_neg a ▸ h)

/-- A division that is not by zero brings no number further from zero. -/
theorem idiv (hb : b ≠ 0) (h : |a| < 2 ^ (w - 1)) :
    Agree (fun ar _ => ar.idiv w a b) (· = a.tdiv b) := by
  have hle : |a.tdiv b| ≤ |a| := by
    rw [Int.abs_eq_natAbs, Int.abs_eq_natAbs]
    exact_mod_cast Int.natAbs_tdiv_le_natAbs a b
  refine (int (lt_of_le_of_lt hle h)).congr ?_
  intro ar depth _ _
  exact if_neg hb

theorem irem (hb : b ≠ 0) (h : |a| < 2 ^ (w - 1)) :
    Agree (fun ar _ => ar.irem w a b) (· = a.tmod b) := by
  have hle : |a.tmod b| ≤ |a| := by
    rw [Int.abs_eq_natAbs, Int.natAbs_tmod, Int.abs_eq_natAbs]
    exact_mod_cast Nat.mod_le _ _
  refine (int (lt_of_le_of_lt hle h)).congr ?_
  intro ar depth _ _
  exact if_neg hb

end Int

end Agree

end Lib
