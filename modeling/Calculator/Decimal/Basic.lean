import Calculator.Binary64
/-!
# Decimal.Basic — decimals, and the double nearest to one

A decimal is a whole number times a power of ten.  It is exact: reading a text loses nothing before the one rounding
to a double at the end.
-/
namespace Calculator

/-- `coefficient` · 10^`exponent`. -/
structure Decimal where
  coefficient : Nat
  exponent : Int
  deriving DecidableEq, Repr

namespace Decimal

/-- A count of digits that surely suffices for the number, because ten to the 28th is greater than two to the 93rd. -/
def digitBound (n : Nat) : Nat := (n.log2 + 1) * 28 / 93 + 1

/-- **The place of the double nearest to the decimal**, ties to even.  The two cuts keep the powers small: a nonzero
decimal with an exponent past 309 is greater than every finite double, and one below 10^-330 rounds to zero. -/
def nearestPlace (d : Decimal) : Nat :=
  if d.coefficient = 0 then 0
  else if 309 < d.exponent then Binary64.infinityPlace
  else if d.exponent + digitBound d.coefficient < -330 then 0
  else
    let units := d.coefficient * Nat.pow 10 d.exponent.toNat * Nat.pow 2 1074
    Binary64.nearestPlace units (Nat.pow 10 (-d.exponent).toNat)

end Decimal
end Calculator
