import Mathlib.Data.Finset.Card
import Mathlib.Data.List.Infix
import Mathlib.Tactic.Basic

/-!
# Windows of recent entries

A log, newest entry first, that admits an entry only while it is not among the last `w`. The last
entries are then distinct, and an entry comes back only after `w` others.
-/

namespace Lib.RecencyWindow

variable {α : Type*} {w : Nat} {a old : α} {log after between before : List α}

/-- No entry is among the `w` that came before it. -/
def Fresh (w : Nat) : List α → Prop
  | [] => True
  | a :: log => a ∉ log.take w ∧ Fresh w log

@[simp] theorem fresh_nil : Fresh w ([] : List α) := trivial

@[simp] theorem fresh_cons : Fresh w (a :: log) ↔ a ∉ log.take w ∧ Fresh w log := Iff.rfl

theorem Fresh.of_append (h : Fresh w (after ++ log)) : Fresh w log := by
  induction after with
  | nil => exact h
  | cons a after ih => exact ih h.2

theorem take_sublist_take {m n : Nat} (h : m ≤ n) : (log.take m).Sublist (log.take n) := by
  have htake : (log.take n).take m = log.take m := by rw [List.take_take, Nat.min_eq_left h]
  exact htake ▸ List.take_sublist _ _

/-- The last entries are distinct, the next one included. -/
theorem Fresh.nodup_take (h : Fresh w log) : (log.take (w + 1)).Nodup := by
  induction log with
  | nil => simp
  | cons a log ih =>
    rw [List.take_succ_cons, List.nodup_cons]
    exact ⟨h.1, (ih h.2).sublist (take_sublist_take (Nat.le_succ w))⟩

/-- **An entry comes back only after `w` distinct others.** -/
theorem Fresh.le_card_between [DecidableEq α]
    (h : Fresh w (after ++ a :: (between ++ a :: before))) :
    w ≤ (between.toFinset.erase a).card := by
  obtain ⟨hnew, hrest⟩ := h.of_append
  have hlong : w ≤ between.length := by
    by_contra hshort
    apply hnew
    rw [List.take_append, List.mem_append]
    obtain ⟨d, hd⟩ := Nat.exists_eq_add_of_lt (Nat.not_le.mp hshort)
    right
    rw [show w - between.length = d + 1 by omega, List.take_succ_cons]
    exact List.mem_cons_self
  have htake : (between ++ a :: before).take w = between.take w :=
    List.take_append_of_le_length hlong
  have hnodup : (between.take w).Nodup :=
    htake ▸ hrest.nodup_take.sublist (take_sublist_take (Nat.le_succ w))
  have hsub : (between.take w).toFinset ⊆ between.toFinset.erase a := by
    intro x hx
    rw [List.mem_toFinset] at hx
    apply Finset.mem_erase.mpr
    constructor
    · intro hxa
      exact hnew (htake ▸ hxa ▸ hx)
    · exact List.mem_toFinset.mpr (List.mem_of_mem_take hx)
  calc w = (between.take w).length := by rw [List.length_take, Nat.min_eq_left hlong]
    _ = (between.take w).toFinset.card := (List.toFinset_card_of_nodup hnodup).symm
    _ ≤ _ := Finset.card_le_card hsub

/-! ## The window moves on -/

theorem take_eq_append_of_getElem? (h : log[w]? = some old) :
    log.take (w + 1) = log.take w ++ [old] := by
  rw [List.take_add_one, h, Option.toList_some]

/-- A log that is not longer than the window keeps all its entries. -/
theorem toFinset_take_cons_of_none [DecidableEq α] (h : log[w]? = none) :
    ((a :: log).take (w + 1)).toFinset = insert a (log.take (w + 1)).toFinset := by
  have hlen : log.length ≤ w := List.getElem?_eq_none_iff.mp h
  rw [List.take_succ_cons, List.toFinset_cons, List.take_of_length_le hlen,
    List.take_of_length_le (by omega)]

/-- A longer one gives up the oldest. -/
theorem toFinset_take_cons_of_some [DecidableEq α] (hfresh : Fresh (w + 1) (a :: log))
    (h : log[w]? = some old) :
    ((a :: log).take (w + 1)).toFinset = (insert a (log.take (w + 1)).toFinset).erase old := by
  have htake := take_eq_append_of_getElem? h
  obtain ⟨hnew, hrest⟩ := hfresh
  have hnodup : (log.take (w + 1)).Nodup :=
    hrest.nodup_take.sublist (take_sublist_take (Nat.le_succ _))
  rw [htake] at hnew hnodup
  rw [List.take_succ_cons, List.toFinset_cons, htake, List.toFinset_append]
  have hold : old ∉ (log.take w).toFinset := by
    intro hmem
    have hdisjoint := List.disjoint_of_nodup_append hnodup
    exact hdisjoint (List.mem_toFinset.mp hmem) List.mem_cons_self
  have hne : a ≠ old := by
    intro heq
    exact hnew (List.mem_append_right _ (heq ▸ List.mem_cons_self))
  ext x
  simp only [Finset.mem_insert, Finset.mem_erase, Finset.mem_union, List.mem_toFinset,
    List.mem_singleton]
  rw [List.mem_toFinset] at hold
  constructor
  · intro hx
    constructor
    · rintro rfl
      exact hx.elim (fun heq => hne heq.symm) hold
    · exact hx.imp_right .inl
  · rintro ⟨hx, hor⟩
    exact hor.imp_right fun h => h.resolve_right hx

end Lib.RecencyWindow
