import Mathlib.Data.List.Basic
import Mathlib.Tactic.Basic

/-!
# Writing a batch of cells

A state with cells that are read and written one at a time. A batch of writes that all agree with
one partial function leaves each cell it names at the value of that function, and every other cell
as it was. So the order of the writes does not matter.
-/

namespace Lib

variable {σ κ β : Type*} {read : σ → κ → Option β} {write : σ → κ → β → σ}

/-- A cell reads what was last written to it. -/
def ReadsWrites [DecidableEq κ] (read : σ → κ → Option β) (write : σ → κ → β → σ) : Prop :=
  ∀ s k v k', read (write s k v) k' = if k' = k then some v else read s k'

/-- Write the cells of a list, from the first to the last. -/
def writeAll (write : σ → κ → β → σ) (cells : List (κ × β)) (s : σ) : σ :=
  cells.foldl (fun s cell => write s cell.1 cell.2) s

@[simp] theorem writeAll_nil (s : σ) : writeAll write [] s = s := rfl

@[simp] theorem writeAll_cons (cell : κ × β) (cells : List (κ × β)) (s : σ) :
    writeAll write (cell :: cells) s = writeAll write cells (write s cell.1 cell.2) := rfl

theorem writeAll_append (cells rest : List (κ × β)) (s : σ) :
    writeAll write (cells ++ rest) s = writeAll write rest (writeAll write cells s) :=
  List.foldl_append

/-- A batch that agrees with `f` leaves the cells it names at the values of `f`. -/
theorem ReadsWrites.read_writeAll [DecidableEq κ] (h : ReadsWrites read write) {f : κ → Option β}
    {cells : List (κ × β)} (hf : ∀ cell ∈ cells, f cell.1 = some cell.2) (s : σ) (k : κ) :
    read (writeAll write cells s) k =
      if k ∈ cells.map Prod.fst then f k else read s k := by
  induction cells generalizing s with
  | nil => rfl
  | cons cell cells ih =>
    have hcell := hf cell (List.mem_cons_self ..)
    rw [writeAll_cons, ih fun cell hmem => hf cell (List.mem_cons_of_mem _ hmem), List.map_cons,
      h s cell.1 cell.2 k]
    by_cases hrest : k ∈ cells.map Prod.fst
    · rw [if_pos hrest, if_pos (List.mem_cons_of_mem _ hrest)]
    · rw [if_neg hrest]
      by_cases hk : k = cell.1
      · rw [if_pos hk, if_pos (hk ▸ List.mem_cons_self ..), hk, hcell]
      · rw [if_neg hk, if_neg fun hmem => (List.mem_cons.1 hmem).elim hk hrest]

end Lib
