import Calculator.Decimal.Basic
/-!
# Decimal.Shortest — the fewest digits that tell a double from all others

Every decimal strictly between the two midpoints to its neighbours reads back as a double, and the midpoints do too
when its place is even.  Of these decimals the one on the coarsest power-of-ten grid has the fewest digits.  If any
point of a grid reads back, then one of the two points around the double does, so only these two are tried; of two
the nearer is taken, and the upper one of two that are equally near.
-/
namespace Calculator
namespace Decimal

/-- A natural number with the stretch around it that stands for it. -/
structure Window where
  lower : Nat
  value : Nat
  upper : Nat
  /-- Whether the two ends belong to the stretch. -/
  closed : Bool
  deriving DecidableEq, Repr

namespace Window

def holds (w : Window) (n : Nat) : Bool :=
  if w.closed then w.lower ≤ n && n ≤ w.upper else w.lower < n && n < w.upper

/-- The multiple of the step that is in the window and nearest to its value, as a count of steps. -/
def pick? (w : Window) (step : Nat) : Option Nat :=
  let below := w.value / step
  let above := below + 1
  match w.holds (below * step), w.holds (above * step) with
  | true, true => if 2 * (w.value % step) < step then some below else some above
  | true, false => some below
  | false, true => some above
  | false, false => none

/-- The first hit on the grids 10^k, 10^(k-1), …, 1, with the exponent of its grid.  On the last grid the value
itself is a point. -/
def coarsest (w : Window) : Nat → Nat × Nat
  | 0 => (w.value, 0)
  | k + 1 =>
    match w.pick? (Nat.pow 10 (k + 1)) with
    | some count => (count, k + 1)
    | none => w.coarsest k

/-- The reals that round to the double at a place, in units of 10^-1075.  Midpoints of doubles are whole multiples of
2^-1075, and 2^-1075 is 5^1075 of these units. -/
def ofPlace (place : Nat) : Window where
  lower := (Binary64.units (place - 1) + Binary64.units place) * Nat.pow 5 1075
  value := 2 * Binary64.units place * Nat.pow 5 1075
  upper := (Binary64.units place + Binary64.units (place + 1)) * Nat.pow 5 1075
  closed := place % 2 = 0

/-- The decimal with the fewest digits in a window of units of 10^-1075. -/
def shortest (w : Window) : Decimal :=
  let (count, grid) := w.coarsest (digitBound w.value)
  ⟨count, grid - 1075⟩

end Window

/-- The shortest decimal that reads back as the positive finite double at a place, and of these the nearest to it. -/
def ofPlace (place : Nat) : Decimal := (Window.ofPlace place).shortest

end Decimal
end Calculator
