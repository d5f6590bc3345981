/-!
# Binary64 — doubles as places in an ascending list

Without its sign, the bit pattern of a double is its place in the ascending list of all doubles that are not
negative: place 0 is zero, place 1 the least positive double, and after the greatest finite one comes
infinity.  Every finite double is a whole number of units, a unit being the least positive double 2^-1074.  So
whatever is said of doubles here is said of natural numbers.
-/
namespace Calculator
namespace Binary64

/-- How many doubles share one spacing. -/
def perBinade : Nat := Nat.pow 2 52

/-- The place of infinity, which is also how many places hold finite doubles. -/
def infinityPlace : Nat := 2047 * perBinade

/-- The bit that tells the sign. -/
def signBit : Nat := Nat.pow 2 63

/-- The pattern of the NaN. -/
def nanPattern : Nat := infinityPlace + perBinade / 2

/-- The value at a place, in units of 2^-1074.  The first two binades are a unit apart, each later one is spaced
twice as wide as the one before; the place of infinity gets the value that would come next. -/
def units (place : Nat) : Nat :=
  if place < perBinade then place
  else (perBinade + place % perBinade) * Nat.pow 2 (place / perBinade - 1)

/-! ## Rounding -/

/-- The whole number nearest to `num / den`; halfway between two, the even one. -/
def roundHalfEven (num den : Nat) : Nat :=
  let whole := num / den
  let twice := 2 * (num % den)
  if twice < den ∨ (twice = den ∧ whole % 2 = 0) then whole else whole + 1

/-- **The place nearest to `num / den` units**, the even one of two that are equally near.  A value that rounds past
the greatest finite double is at the place of infinity.  Within a binade places are evenly spaced, so the value is
rounded to a whole number of spacings; one that rounds up to the next binade is that binade's first place. -/
def nearestPlace (num den : Nat) : Nat :=
  let doublings := (num / den).log2 - 52
  min (doublings * perBinade + roundHalfEven num (den * Nat.pow 2 doublings)) infinityPlace

/-! ## Doubles -/

def isNegative (x : Float) : Bool := signBit ≤ x.toBits.toNat

/-- The bit pattern without the sign. -/
def place (x : Float) : Nat := x.toBits.toNat % signBit

def ofPlace (negative : Bool) (place : Nat) : Float :=
  Float.ofBits (UInt64.ofNat (if negative then signBit + place else place))

def infinity (negative : Bool) : Float := ofPlace negative infinityPlace

def nan : Float := ofPlace false nanPattern

end Binary64
end Calculator
