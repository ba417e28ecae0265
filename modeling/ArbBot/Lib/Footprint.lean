import Mathlib.Data.List.Basic
import Mathlib.Tactic.Basic

/-!
# The footprint of a program

A program over a store of cells. It reads one cell at a time and goes on from what it reads, and it
writes any number of cells at once. Its footprint in a store lists the cells it reads there before
it has written them, and it cannot tell two stores apart that agree on these.

Programs that run one after the other on one store leave their writes to each other. As long as each
one finds the cells of its footprint as they were at the start, it returns what it would return if
it ran alone.
-/

namespace Lib

/-- A program: it returns, reads a cell, or writes some cells. -/
inductive CellProg (κ : Type) (ν : κ → Type) (α : Type) : Type
  | pure (a : α)
  | read (cell : κ) (next : ν cell → CellProg κ ν α)
  | write (values : (cell : κ) → Option (ν cell)) (next : CellProg κ ν α)

namespace CellProg

variable {κ : Type} {ν : κ → Type} {α β : Type}

protected def bind : CellProg κ ν α → (α → CellProg κ ν β) → CellProg κ ν β
  | .pure a, f => f a
  | .read cell next, f => .read cell fun value => (next value).bind f
  | .write values next, f => .write values (next.bind f)

/-- The store with some cells replaced. -/
def overwrite (s : (cell : κ) → ν cell) (values : (cell : κ) → Option (ν cell)) :
    (cell : κ) → ν cell :=
  fun cell => (values cell).getD (s cell)

/-- What the program returns, and the store it leaves. -/
def run : CellProg κ ν α → ((cell : κ) → ν cell) → α × ((cell : κ) → ν cell)
  | .pure a, s => (a, s)
  | .read cell next, s => (next (s cell)).run s
  | .write values next, s => next.run (overwrite s values)

/-- The footprint: the cells that are read before they are written. -/
def reads : CellProg κ ν α → ((cell : κ) → ν cell) → List κ
  | .pure _, _ => []
  | .read cell next, s => cell :: (next (s cell)).reads s
  | .write values next, s => (next.reads (overwrite s values)).filter fun cell =>
      (values cell).isNone

/-- The stores have the same values in the cells. -/
def AgreeOn (cells : List κ) (s t : (cell : κ) → ν cell) : Prop := ∀ cell ∈ cells, s cell = t cell

instance [∀ cell, DecidableEq (ν cell)] (cells : List κ) (s t : (cell : κ) → ν cell) :
    Decidable (AgreeOn cells s t) :=
  inferInstanceAs (Decidable (∀ cell ∈ cells, s cell = t cell))

variable {p : CellProg κ ν α} {s t : (cell : κ) → ν cell} {cells : List κ}

/-- The same writes to both stores make them agree on the written cells too. -/
theorem AgreeOn.overwrite {values : (cell : κ) → Option (ν cell)}
    (h : AgreeOn (cells.filter fun cell => (values cell).isNone) s t) :
    AgreeOn cells (overwrite s values) (overwrite t values) := by
  intro cell hcell
  unfold CellProg.overwrite
  cases hvalue : values cell with
  | none =>
    have hfilter : cell ∈ cells.filter fun cell => (values cell).isNone :=
      List.mem_filter.mpr ⟨hcell, by rw [hvalue]; rfl⟩
    exact h cell hfilter
  | some value => rfl

theorem run_bind (p : CellProg κ ν α) (f : α → CellProg κ ν β) (s : (cell : κ) → ν cell) :
    (p.bind f).run s = (f (p.run s).1).run (p.run s).2 := by
  induction p generalizing s with
  | pure a => rfl
  | read cell next ih => exact ih (s cell) s
  | write values next ih => exact ih _

/-- A program cannot tell two stores apart that agree on its footprint. -/
theorem run_congr (h : AgreeOn (p.reads s) s t) : (p.run t).1 = (p.run s).1 := by
  induction p generalizing s t with
  | pure a => rfl
  | read cell next ih =>
    have hcell : s cell = t cell := h cell (List.mem_cons_self ..)
    have hrest : AgreeOn ((next (s cell)).reads s) s t :=
      fun c hc => h c (List.mem_cons_of_mem _ hc)
    unfold run
    rw [← hcell]
    exact ih (s cell) hrest
  | write values next ih => exact ih h.overwrite

/-! ## Programs in turn -/

/-- What the programs return when they run one after the other. -/
def runAll : List (CellProg κ ν α) → ((cell : κ) → ν cell) → List α
  | [], _ => []
  | p :: ps, s => (p.run s).1 :: runAll ps (p.run s).2

/-- Each program finds the cells of its footprint in the first store as that store has them. -/
def Undisturbed (start : (cell : κ) → ν cell) :
    List (CellProg κ ν α) → ((cell : κ) → ν cell) → Prop
  | [], _ => True
  | p :: ps, s => AgreeOn (p.reads start) start s ∧ Undisturbed start ps (p.run s).2

/-- Undisturbed programs return what each of them returns alone. -/
theorem runAll_of_undisturbed {start : (cell : κ) → ν cell} {ps : List (CellProg κ ν α)}
    (h : Undisturbed start ps s) : runAll ps s = ps.map fun p => (p.run start).1 := by
  induction ps generalizing s with
  | nil => rfl
  | cons p ps ih =>
    obtain ⟨hfirst, hrest⟩ := h
    rw [runAll, List.map_cons, run_congr hfirst, ih hrest]

end CellProg

end Lib
