import Mathlib.Data.List.Basic

/-!
# Neighbours

The pairs of neighbours in a list, and what becomes of them when lists are joined to one: besides
the pairs of each list there are the pairs where one list ends and the next begins.
-/

namespace Lib

variable {α : Type*}

/-- The pairs of neighbours, in order. -/
def neighbours (xs : List α) : List (α × α) := xs.zip xs.tail

/-- The pair where one list ends and the next begins. -/
def junction (xs ys : List α) : List (α × α) :=
  xs.getLast?.toList.zip ys.head?.toList

/-- The pairs where the lists of a list meet. -/
def junctions : List (List α) → List (α × α)
  | xs :: ys :: rest => junction xs ys ++ junctions (ys :: rest)
  | _ => []

theorem neighbours_append {xs ys : List α} (hxs : xs ≠ []) (hys : ys ≠ []) :
    neighbours (xs ++ ys) = neighbours xs ++ (junction xs ys ++ neighbours ys) := by
  induction xs with
  | nil => exact absurd rfl hxs
  | cons x xs ih =>
    cases xs with
    | nil =>
      cases ys with
      | nil => exact absurd rfl hys
      | cons y ys => rfl
    | cons x' xs =>
      have hrest := ih (List.cons_ne_nil x' xs)
      exact congrArg (List.cons (x, x')) hrest

/-- The neighbours in a joined list: those in the lists, and those where two lists meet. -/
theorem mem_neighbours_flatten {xss : List (List α)} (h : ∀ xs ∈ xss, xs ≠ []) {p : α × α} :
    p ∈ neighbours xss.flatten ↔ p ∈ xss.flatMap neighbours ∨ p ∈ junctions xss := by
  induction xss with
  | nil => simp [neighbours, junctions]
  | cons xs rest ih =>
    have hxs := h xs List.mem_cons_self
    have hrest := ih fun ys hys => h ys (List.mem_cons_of_mem xs hys)
    cases rest with
    | nil => simp [junctions]
    | cons ys rest =>
      have hys := h ys (List.mem_cons_of_mem xs List.mem_cons_self)
      have hne : (ys :: rest).flatten ≠ [] := by simp [hys]
      have hhead : junction xs (ys :: rest).flatten = junction xs ys := by
        cases ys with
        | nil => exact absurd rfl hys
        | cons y ys => rfl
      have hflat : (xs :: ys :: rest).flatMap neighbours =
        neighbours xs ++ (ys :: rest).flatMap neighbours := List.flatMap_cons ..
      rw [List.flatten_cons, neighbours_append hxs hne, List.mem_append, List.mem_append, hhead,
        hrest, junctions, List.mem_append, hflat, List.mem_append]
      rw [← or_assoc]
      exact or_or_or_comm

end Lib
