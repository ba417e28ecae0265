import Mathlib.Data.List.Basic
import Mathlib.Tactic.Basic

/-!
# States made of rows

A state with a row for each key, and a rest no row is part of. An update of one row reads and
writes that row only. Such updates compose, and behind one that sets the row to a fixed value what
they leave is a fixed value too. A list of keys whose rows are all set to values of their own
therefore leaves one state, whatever the rows were before and in whatever order the keys come.
-/

namespace Lib

/-- The rows of a state. -/
structure Rows (σ κ ρ τ : Type*) [DecidableEq κ] where
  row : σ → κ → ρ
  rest : σ → τ
  setRow : σ → κ → ρ → σ
  row_setRow : ∀ s k r k', row (setRow s k r) k' = if k' = k then r else row s k'
  rest_setRow : ∀ s k r, rest (setRow s k r) = rest s
  ext : ∀ s t, rest s = rest t → (∀ k, row s k = row t k) → s = t

namespace Rows

variable {σ κ ρ τ : Type*} [DecidableEq κ] (L : Rows σ κ ρ τ) {k : κ} {f g : σ → σ}

theorem setRow_row (s : σ) (k : κ) : L.setRow s k (L.row s k) = s := by
  refine L.ext _ _ (L.rest_setRow ..) fun k' => ?_
  rw [L.row_setRow]
  split <;> rename_i h
  · rw [h]
  · rfl

theorem setRow_setRow (s : σ) (k : κ) (r r' : ρ) :
    L.setRow (L.setRow s k r) k r' = L.setRow s k r' := by
  refine L.ext _ _ (by simp only [L.rest_setRow]) fun k' => ?_
  simp only [L.row_setRow]
  split <;> rfl

/-! ## Updates of one row -/

/-- The update reads and writes the row of one key. -/
def OnRow (k : κ) (f : σ → σ) : Prop := ∃ u : ρ → ρ, ∀ s, f s = L.setRow s k (u (L.row s k))

variable {L}

theorem OnRow.refl : L.OnRow k fun s => s := ⟨id, fun s => (L.setRow_row s k).symm⟩

theorem OnRow.set (r : ρ) : L.OnRow k fun s => L.setRow s k r := ⟨fun _ => r, fun _ => rfl⟩

theorem OnRow.comp (hf : L.OnRow k f) (hg : L.OnRow k g) : L.OnRow k fun s => g (f s) := by
  obtain ⟨u, hu⟩ := hf
  obtain ⟨v, hv⟩ := hg
  refine ⟨fun r => v (u r), fun s => ?_⟩
  show g (f s) = _
  rw [hv, hu, setRow_setRow, L.row_setRow, if_pos rfl]

/-- A choice that depends on the row. -/
theorem OnRow.branch {c : ρ → Prop} [DecidablePred c] (hf : L.OnRow k f) (hg : L.OnRow k g) :
    L.OnRow k fun s => if c (L.row s k) then f s else g s := by
  obtain ⟨u, hu⟩ := hf
  obtain ⟨v, hv⟩ := hg
  refine ⟨fun r => if c r then u r else v r, fun s => ?_⟩
  by_cases hc : c (L.row s k)
  · simp only [if_pos hc, hu s]
  · simp only [if_neg hc, hv s]

/-- An update that is left out on a condition the state has no part in. -/
theorem OnRow.unless {c : Prop} [Decidable c] (hf : L.OnRow k f) :
    L.OnRow k fun s => if c then s else f s := OnRow.branch (c := fun _ => c) .refl hf

/-- Behind an update that sets the row, the row does not depend on the state. -/
theorem OnRow.exists_row (hf : L.OnRow k f) (r : ρ) :
    ∃ r', ∀ s, f (L.setRow s k r) = L.setRow s k r' := by
  obtain ⟨u, hu⟩ := hf
  exact ⟨u r, fun s => by rw [hu, setRow_setRow, L.row_setRow, if_pos rfl]⟩

/-- It leaves the other rows alone. -/
theorem OnRow.row_of_ne {k' : κ} (hf : L.OnRow k f) (hne : k' ≠ k) (s : σ) :
    L.row (f s) k' = L.row s k' := by
  obtain ⟨u, hu⟩ := hf
  rw [hu, L.row_setRow, if_neg hne]

/-! ## Rows set afresh -/

variable (L)

/-- Set the rows of the keys that have a value. -/
def refresh (fresh : κ → Option ρ) (ks : List κ) (s : σ) : σ :=
  ks.foldl (fun s k => (fresh k).elim s (L.setRow s k)) s

variable {L} {fresh : κ → Option ρ} {ks ks' : List κ}

theorem row_refresh (s : σ) (k : κ) : L.row (L.refresh fresh ks s) k =
    if k ∈ ks then (fresh k).getD (L.row s k) else L.row s k := by
  induction ks generalizing s with
  | nil => rfl
  | cons j ks ih =>
    have hstep : L.row ((fresh j).elim s (L.setRow s j)) k =
        if k = j then (fresh k).getD (L.row s k) else L.row s k := by
      by_cases hk : k = j
      · subst hk
        cases fresh k <;> simp [L.row_setRow]
      · cases fresh j <;> simp [L.row_setRow, hk]
    rw [refresh, List.foldl_cons, ← refresh, ih, hstep]
    by_cases hk : k = j
    · subst hk
      rw [if_pos rfl, if_pos List.mem_cons_self]
      cases fresh k <;> simp
    · simp only [List.mem_cons, hk, false_or, if_false]

theorem rest_refresh (s : σ) : L.rest (L.refresh fresh ks s) = L.rest s := by
  induction ks generalizing s with
  | nil => rfl
  | cons j ks ih =>
    rw [refresh, List.foldl_cons, ← refresh, ih]
    cases fresh j with
    | none => rfl
    | some r => exact L.rest_setRow s j r

/-- A row that is set does not depend on the state before. -/
theorem row_refresh_of_mem {r : ρ} (hk : k ∈ ks) (hr : fresh k = some r) (s : σ) :
    L.row (L.refresh fresh ks s) k = r := by
  rw [row_refresh, if_pos hk, hr, Option.getD_some]

theorem row_refresh_of_not (hk : ¬ (k ∈ ks ∧ (fresh k).isSome)) (s : σ) :
    L.row (L.refresh fresh ks s) k = L.row s k := by
  rw [row_refresh]
  split <;> rename_i hmem
  · rw [Option.not_isSome_iff_eq_none.mp fun h => hk ⟨hmem, h⟩, Option.getD_none]
  · rfl

/-- The order and the repetitions of the keys do not matter. -/
theorem refresh_congr (h : ∀ k, k ∈ ks ↔ k ∈ ks') (s : σ) :
    L.refresh fresh ks s = L.refresh fresh ks' s := by
  refine L.ext _ _ (by rw [rest_refresh, rest_refresh]) fun k => ?_
  simp only [row_refresh, h k]

end Rows

end Lib
