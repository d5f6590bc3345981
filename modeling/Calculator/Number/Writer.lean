import Calculator.Decimal.Shortest
/-!
# Number.Writer — the text of a double

The digits are the fewest that read back.  They are laid out with a point that has a digit on either side, from a
thousandth up to ten million in full, and outside of that with one digit before the point and an exponent, whose `e`
gives way to another mark.
-/
namespace Calculator
namespace Number

/-- Where numbers are written in full, and how an exponent is announced. -/
structure Layout where
  /-- The least exponent of a first digit that is written in full. -/
  least : Int
  /-- The greatest exponent of a first digit that is written in full. -/
  greatest : Int
  /-- What stands between the digits and the exponent. -/
  mark : Char
  deriving DecidableEq, Repr

/-- Results are written in full from 10^-3 up to but not including 10^7. -/
def layout : Layout := ⟨-3, 6, 'E'⟩

/-- A point between two groups of digits; a missing fraction is one zero. -/
def pointed (whole fraction : List Char) : List Char :=
  whole ++ '.' :: (if fraction.isEmpty then ['0'] else fraction)

/-- A minus sign if there is one to write, and the digits. -/
def integerText (n : Int) : List Char :=
  if n < 0 then '-' :: Nat.toDigits 10 n.natAbs else Nat.toDigits 10 n.natAbs

/-- Digits with a point behind the first one if there are others. -/
def mantissa : List Char → List Char
  | first :: second :: rest => first :: '.' :: second :: rest
  | digits => digits

/-- A mantissa with a fraction; a missing one is one zero. -/
def withFraction (digits : List Char) : List Char :=
  if '.' ∈ digits then digits else digits ++ ['.', '0']

/-- Digits and the exponent of the first one, behind an `e`. -/
def exponential (digits : List Char) (exponent : Int) : List Char := mantissa digits ++ 'e' :: integerText exponent

/-- What stands before a character where it comes first, and what behind it. -/
def splitOnce? (c : Char) (text : List Char) : Option (List Char × List Char) :=
  match text.dropWhile (· != c) with
  | [] => none
  | _ :: after => some (text.takeWhile (· != c), after)

namespace Layout

/-- Digits whose first one stands for a multiple of 10^`exponent`, written in full. -/
def full (digits : List Char) (exponent : Int) : List Char :=
  if exponent < 0 then pointed ['0'] (List.replicate (-exponent - 1).toNat '0' ++ digits)
  else
    let size := exponent.toNat + 1
    pointed (digits.take size ++ List.replicate (size - digits.length) '0') (digits.drop size)

/-- The same digits with an exponent, behind the mark of the layout and not an `e`.  A text without an `e` would stay
as it is. -/
def scientific (l : Layout) (digits : List Char) (exponent : Int) : List Char :=
  match splitOnce? 'e' (exponential digits exponent) with
  | some (before, after) => withFraction before ++ l.mark :: after
  | none => exponential digits exponent

def write (l : Layout) (d : Decimal) : List Char :=
  let digits := Nat.toDigits 10 d.coefficient
  let exponent := d.exponent + (digits.length - 1 : Nat)
  if l.least ≤ exponent ∧ exponent ≤ l.greatest then full digits exponent else l.scientific digits exponent

end Layout

/-- The text of the double at a place, without its sign. -/
def writePlace (place : Nat) : List Char :=
  if place = Binary64.infinityPlace then "Infinity".toList
  else if place = 0 then pointed ['0'] []
  else layout.write (Decimal.ofPlace place)

/-- **The text of a double.**  The sign is written whenever it is set, so also before a zero; the NaN has none. -/
def write (x : Float) : String :=
  if Binary64.infinityPlace < Binary64.place x then "NaN"
  else
    let text := writePlace (Binary64.place x)
    String.ofList (if Binary64.isNegative x then '-' :: text else text)

end Number
end Calculator
