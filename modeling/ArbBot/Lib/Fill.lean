import Mathlib.Data.List.Basic
import Mathlib.Tactic.Basic

/-!
# Cells that are written and filled

A cell that is empty or has a value. A write sets it; an offer fills it when it is empty and is
lost otherwise. After any sequence of these the cell has the last value written; if nothing was
written, what it had; and if that was nothing, the first value offered. So no offer, however late,
takes the place of a write.
-/

namespace Lib

variable {β : Type*}

/-- What happens to a cell. -/
inductive CellEvent (β : Type*) where
  | write (value : β)
  | offer (value : β)

namespace CellEvent

/-- The cell after the event. -/
def apply (cell : Option β) : CellEvent β → Option β
  | write value => some value
  | offer value => cell <|> some value

/-- The value of the last write. -/
def lastWrite : List (CellEvent β) → Option β
  | [] => none
  | write value :: events => lastWrite events <|> some value
  | offer _ :: events => lastWrite events

/-- The value of the first offer. -/
def firstOffer : List (CellEvent β) → Option β
  | [] => none
  | write _ :: events => firstOffer events
  | offer value :: _ => some value

theorem orElse_assoc (x y z : Option β) : ((x <|> y) <|> z) = (x <|> (y <|> z)) := by
  cases x <;> rfl

/-- The last write, else what was there, else the first offer. -/
theorem foldl_apply (events : List (CellEvent β)) (cell : Option β) :
    events.foldl apply cell = (lastWrite events <|> (cell <|> firstOffer events)) := by
  induction events generalizing cell with
  | nil => cases cell <;> rfl
  | cons event events ih =>
    rw [List.foldl_cons, ih]
    cases event with
    | write value =>
      rw [lastWrite, orElse_assoc]
      rfl
    | offer value =>
      rw [lastWrite, apply, firstOffer, orElse_assoc]
      rfl

end CellEvent

end Lib
