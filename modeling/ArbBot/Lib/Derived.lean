import ArbBot.Lib.Rows
import Mathlib.Data.Set.Basic

/-!
# Rows derived from a source

Rows that are computed from a source and stored, each from a view of the source of its own. A write
to the source leaves stored rows behind it; setting a row afresh brings it back. What holds between
the two is told by a set of keys: outside of it every stored row is the one the source gives. A write
adds to the set the keys whose view it changes, as does a row that is set to something else, and a
refresh takes its keys out.
-/

namespace Lib

/-- Rows of type `ρ`, derived from a source through a view for each key. -/
structure Derived (δ κ ν ρ : Type*) where
  view : δ → κ → ν
  fresh : δ → κ → Option ρ
  fresh_congr : ∀ d d' k, view d k = view d' k → fresh d k = fresh d' k

namespace Derived

variable {σ δ κ ν ρ τ : Type*} [DecidableEq κ] (L : Rows σ κ ρ τ) (D : Derived δ κ ν ρ)

/-- Outside of the set every stored row is the one the source gives. -/
def UpToDate (d : δ) (s : σ) (dirty : Set κ) : Prop :=
  ∀ k, k ∉ dirty → ∀ r, D.fresh d k = some r → L.row s k = r

variable {L D} {d d' : δ} {s : σ} {dirty dirty' : Set κ}

theorem UpToDate.mono (h : D.UpToDate L d s dirty) (hsub : dirty ⊆ dirty') :
    D.UpToDate L d s dirty' :=
  fun k hk => h k fun hmem => hk (hsub hmem)

/-- A write leaves behind the keys whose view it changes. -/
theorem UpToDate.write (h : D.UpToDate L d s dirty) (hsub : dirty ⊆ dirty')
    (hchanged : ∀ k, D.view d k ≠ D.view d' k → k ∈ dirty') : D.UpToDate L d' s dirty' := by
  intro k hk r hr
  have hview : D.view d k = D.view d' k := by
    by_contra hne
    exact hk (hchanged k hne)
  exact h.mono hsub k hk r ((D.fresh_congr d d' k hview).trans hr)

/-- Rows set to anything else are left behind. -/
theorem UpToDate.set {s' : σ} (h : D.UpToDate L d s dirty) (hsub : dirty ⊆ dirty')
    (hset : ∀ k, k ∉ dirty' → L.row s' k = L.row s k) : D.UpToDate L d s' dirty' :=
  fun k hk r hr => (hset k hk).trans (h.mono hsub k hk r hr)

/-- Rows set afresh are up to date. -/
theorem UpToDate.refresh (h : D.UpToDate L d s dirty) {ks : List κ}
    (hsub : ∀ k, k ∈ dirty → k ∉ ks → k ∈ dirty') :
    D.UpToDate L d (L.refresh (D.fresh d) ks s) dirty' := by
  intro k hk r hr
  by_cases hmem : k ∈ ks
  · exact Rows.row_refresh_of_mem hmem hr s
  · rw [Rows.row_refresh_of_not (fun hboth => hmem hboth.1) s]
    exact h k (fun hdirty => hk (hsub k hdirty hmem)) r hr

end Derived

end Lib
