import Mathlib.Data.List.Pairwise
import Mathlib.Order.RelClasses

/-!
# The first match in a list

A search from the front of an ordered list, and a search for what only one element is.
-/

namespace Lib

variable {α : Type*} {p : α → Bool} {l : List α} {a : α}

/-- In an ordered list, what a search finds is the least element with the property. -/
theorem find?_eq_some_iff_least {r : α → α → Prop} [Std.Asymm r] (hl : l.Pairwise r) :
    l.find? p = some a ↔ a ∈ l ∧ p a = true ∧ ∀ b ∈ l, r b a → p b = false := by
  induction l with
  | nil => simp
  | cons x l ih =>
    obtain ⟨hx, hrest⟩ := List.pairwise_cons.mp hl
    by_cases hpx : p x = true
    · rw [List.find?_cons_of_pos hpx, Option.some.injEq]
      constructor
      · intro hxa
        subst hxa
        refine ⟨List.mem_cons_self, hpx, fun b hb hbx => ?_⟩
        rcases List.mem_cons.mp hb with rfl | hb
        · exact absurd hbx (Std.Asymm.asymm _ _ hbx)
        · exact absurd hbx (Std.Asymm.asymm _ _ (hx b hb))
      · rintro ⟨ha, -, hleast⟩
        rcases List.mem_cons.mp ha with rfl | ha
        · rfl
        · have hfalse := hleast x List.mem_cons_self (hx a ha)
          exact absurd (hpx.symm.trans hfalse) (by simp)
    · rw [List.find?_cons_of_neg hpx, ih hrest]
      constructor
      · rintro ⟨ha, hpa, hleast⟩
        refine ⟨List.mem_cons_of_mem x ha, hpa, fun b hb hba => ?_⟩
        rcases List.mem_cons.mp hb with rfl | hb
        · exact Bool.eq_false_iff.mpr hpx
        · exact hleast b hb hba
      · rintro ⟨ha, hpa, hleast⟩
        rcases List.mem_cons.mp ha with rfl | ha
        · exact absurd hpa hpx
        · exact ⟨ha, hpa, fun b hb => hleast b (List.mem_cons_of_mem x hb)⟩

/-- Where only one element has the property, a search finds it in any order. -/
theorem find?_eq_some_of_unique (ha : a ∈ l) (hpa : p a = true)
    (hunique : ∀ b ∈ l, p b = true → b = a) : l.find? p = some a := by
  cases hfind : l.find? p with
  | none => exact absurd hpa (List.find?_eq_none.mp hfind a ha)
  | some b =>
    have hpb := List.find?_some hfind
    rw [hunique b (List.mem_of_find?_eq_some hfind) hpb]

/-- Where all values agree, the first value does not depend on the order. -/
theorem findSome?_eq_of_perm {β : Type*} {f : α → Option β} {l' : List α} (hperm : l.Perm l')
    (hagree : ∀ x ∈ l, ∀ y ∈ l, ∀ b c, f x = some b → f y = some c → b = c) :
    l.findSome? f = l'.findSome? f := by
  cases hl : l.findSome? f with
  | none =>
    have hnone := List.findSome?_eq_none_iff.mp hl
    exact (List.findSome?_eq_none_iff.mpr fun x hx => hnone x (hperm.mem_iff.mpr hx)).symm
  | some b =>
    obtain ⟨x, hx, hb⟩ := List.exists_of_findSome?_eq_some hl
    cases hl' : l'.findSome? f with
    | none =>
      have hnone := List.findSome?_eq_none_iff.mp hl' x (hperm.mem_iff.mp hx)
      exact absurd (hb.symm.trans hnone) (Option.some_ne_none b)
    | some c =>
      obtain ⟨y, hy, hc⟩ := List.exists_of_findSome?_eq_some hl'
      rw [hagree x hx y (hperm.mem_iff.mpr hy) b c hb hc]

end Lib
