import Mathlib.Algebra.Group.Nat.Defs
import Mathlib.Tactic.Basic
import Mathlib.Tactic.Ring

/-!
# Rounded exchange along a walk

A sequence of exchanges, each of which turns an amount at one place into an amount at the next by a
rate that is rounded down, and so is the running product of the rates. If every rate is at most
`scale` times the quotient of what the exchange pays and what it costs, in the units of the two
places, then the running product is at most `scale` times the quotient of all that is paid and all
that it costs, in the units of the two ends.
-/

namespace Lib

variable {scale value rate unit₀ unit unit' cost paid cost' paid' : Nat}

/-- One more exchange at the end of a walk. -/
theorem rounded_exchange (hscale : 0 < scale) (hunit : 0 < unit)
    (hvalue : value * (unit * cost) ≤ scale * (unit₀ * paid))
    (hrate : rate * (unit' * cost') ≤ scale * (unit * paid')) :
    value * rate / scale * (unit' * (cost * cost')) ≤ scale * (unit₀ * (paid * paid')) := by
  have hfloor : value * rate / scale * scale ≤ value * rate := Nat.div_mul_le_self _ _
  have hpos : 0 < scale * unit := Nat.mul_pos hscale hunit
  apply Nat.le_of_mul_le_mul_right _ hpos
  calc value * rate / scale * (unit' * (cost * cost')) * (scale * unit)
      = value * rate / scale * scale * (unit * cost * (unit' * cost')) := by ring
    _ ≤ value * rate * (unit * cost * (unit' * cost')) := Nat.mul_le_mul_right _ hfloor
    _ = value * (unit * cost) * (rate * (unit' * cost')) := by ring
    _ ≤ scale * (unit₀ * paid) * (scale * (unit * paid')) := Nat.mul_le_mul hvalue hrate
    _ = scale * (unit₀ * (paid * paid')) * (scale * unit) := by ring

/-- Where both ends are one place, a product above `scale` pays more than it costs. -/
theorem cost_lt_of_rounded (hunit : 0 < unit) (hcost : 0 < cost)
    (hvalue : value * (unit * cost) ≤ scale * (unit * paid)) (hgain : scale < value) :
    cost < paid := by
  have hpos : 0 < unit * cost := Nat.mul_pos hunit hcost
  have hlt : scale * (unit * cost) < scale * (unit * paid) :=
    lt_of_lt_of_le (Nat.mul_lt_mul_of_pos_right hgain hpos) hvalue
  exact Nat.lt_of_mul_lt_mul_left (Nat.lt_of_mul_lt_mul_left hlt)

end Lib
