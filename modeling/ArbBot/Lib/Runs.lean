import Mathlib.Data.List.Infix
import Mathlib.Tactic.Basic

/-!
# Runs

Finite runs of a labelled transition relation, and the two ways a property of every state reached
follows from its steps: an invariant that every step keeps, and, for a functional relation, a
property that a step keeps exactly when it meets a condition. The second yields an equivalence:
the property holds in every state reached if and only if every step of the run met the condition.
-/

namespace Lib

variable {S I : Type*}

/-- The labels `is` lead from `s` to the last state, step by step. -/
inductive Run (step : S → I → S → Prop) : S → List I → S → Prop
  | nil (s : S) : Run step s [] s
  | cons {s t u : S} {i : I} {is : List I} : step s i t → Run step t is u →
      Run step s (i :: is) u

/-- The steps that meet a condition on the state before and the label. -/
def Guarded (cond : S → I → Prop) (step : S → I → S → Prop) : S → I → S → Prop :=
  fun s i t => cond s i ∧ step s i t

namespace Run

variable {step : S → I → S → Prop} {s t u : S} {is js : List I}

theorem append (h : Run step s is t) (h' : Run step t js u) : Run step s (is ++ js) u := by
  induction h with
  | nil => exact h'
  | cons hstep _ ih => exact .cons hstep (ih h')

theorem exists_cons {i : I} (h : Run step s (i :: is) u) : ∃ t, step s i t ∧ Run step t is u := by
  cases h with
  | cons hstep hrest => exact ⟨_, hstep, hrest⟩

/-- Induction over a run, with the invariant on the states. -/
theorem invariant {inv : S → Prop} (hkeep : ∀ s i t, inv s → step s i t → inv t)
    (h : Run step s is t) (hs : inv s) : inv t := by
  induction h with
  | nil => exact hs
  | cons hstep _ ih => exact ih (hkeep _ _ _ hs hstep)

theorem mono {step' : S → I → S → Prop} (hstep : ∀ s i t, step s i t → step' s i t)
    (h : Run step s is t) : Run step' s is t := by
  induction h with
  | nil => exact .nil _
  | cons hfirst _ ih => exact .cons (hstep _ _ _ hfirst) ih

/-- A run is no longer than what every step takes from a measure. -/
theorem length_add_le {measure : S → Nat}
    (hdec : ∀ s i t, step s i t → measure t < measure s) (h : Run step s is t) :
    is.length + measure t ≤ measure s := by
  induction h with
  | nil => simp
  | @cons s t u i is hstep _ ih =>
    have hfirst := hdec s i t hstep
    rw [List.length_cons]
    omega

/-- Where every step takes from a measure, some run goes on until no step is left. -/
theorem exists_stuck {measure : S → Nat}
    (hdec : ∀ s i t, step s i t → measure t < measure s) (s : S) :
    ∃ is t, Run step s is t ∧ ∀ i u, ¬ step t i u := by
  induction hm : measure s using Nat.strong_induction_on generalizing s with
  | _ m ih =>
    by_cases hstuck : ∀ i u, ¬ step s i u
    · exact ⟨[], s, .nil s, hstuck⟩
    · push Not at hstuck
      obtain ⟨i, u, hstep⟩ := hstuck
      obtain ⟨is, t, hrun, ht⟩ := ih (measure u) (hm ▸ hdec s i u hstep) u rfl
      exact ⟨i :: is, t, .cons hstep hrun, ht⟩

/-- A run of guarded steps is a run. -/
theorem unguard {cond : S → I → Prop} (h : Run (Guarded cond step) s is t) : Run step s is t :=
  h.mono fun _ _ _ hstep => hstep.2

/-- What holds in every state reached by the steps that meet the condition, when a step from a
good state keeps the property exactly under the condition. -/
theorem forall_prefix_iff {good : S → Prop} {cond : S → I → Prop}
    (hfun : ∀ {s i t t'}, step s i t → step s i t' → t = t')
    (hkeep : ∀ {s i t}, good s → step s i t → (good t ↔ cond s i))
    (h : Run step s is u) (hs : good s) :
    (∀ js t, js <+: is → Run step s js t → good t) ↔ Run (Guarded cond step) s is u := by
  induction h with
  | nil s =>
    refine ⟨fun _ => .nil s, fun _ js t hpre hrun => ?_⟩
    obtain rfl := List.prefix_nil.mp hpre
    cases hrun
    exact hs
  | @cons s t u i is hstep hrest ih =>
    constructor
    · intro hall
      have ht : good t := hall [i] t ⟨is, rfl⟩ (.cons hstep (.nil t))
      refine .cons ⟨(hkeep hs hstep).mp ht, hstep⟩ ((ih ht).mp fun js v hpre hrun => ?_)
      exact hall (i :: js) v (List.cons_prefix_cons.mpr ⟨rfl, hpre⟩) (.cons hstep hrun)
    · intro hguarded js v hpre hrun
      obtain ⟨t', ⟨hcond, hstep'⟩, hrest'⟩ := hguarded.exists_cons
      obtain rfl := hfun hstep hstep'
      have ht := (hkeep hs hstep).mpr hcond
      cases hrun with
      | nil => exact hs
      | cons hfirst hrun =>
        obtain ⟨rfl, hpre'⟩ := List.cons_prefix_cons.mp hpre
        obtain rfl := hfun hstep hfirst
        exact (ih ht).mpr hrest' _ _ hpre' hrun

end Run

end Lib
