import Calculator.Character.WhiteSpace
import Calculator.Decimal.Basic
import Calculator.Fault
/-!
# Number.Reader — the double that a text writes

A numeral is an optional sign before `inf`, `infinity` or `nan` in any mixture of cases, or before decimal digits
with at most one point among them and an optional exponent.  The digits denote a decimal exactly, and that decimal is
rounded to a double once.
-/
namespace Calculator
namespace Number

/-- What a numeral denotes, its sign apart. -/
inductive Magnitude where
  | infinity
  | nan
  | decimal (value : Decimal)
  deriving DecidableEq, Repr

/-- A numeral, read but not yet rounded. -/
structure Numeral where
  negative : Bool
  magnitude : Magnitude
  deriving DecidableEq, Repr

/-- An optional sign, as whether it is a minus, and what follows it. -/
def splitSign : List Char → Bool × List Char
  | '-' :: rest => (true, rest)
  | '+' :: rest => (false, rest)
  | text => (false, text)

/-- The words for what has no digits; upper and lower case are one. -/
def readWord? (text : List Char) : Option Magnitude :=
  let word := text.map Char.toLower
  if word = "inf".toList ∨ word = "infinity".toList then some .infinity
  else if word = "nan".toList then some .nan
  else none

/-- The exponent at the end of a numeral: nothing at all, or a mark, an optional sign and at least one digit. -/
def readExponent? : List Char → Option Int
  | [] => some 0
  | mark :: rest =>
    let (negative, digits) := splitSign rest
    if (mark = 'e' ∨ mark = 'E') ∧ digits ≠ [] ∧ digits.all Char.isDigit then
      let size : Int := Nat.ofDigitChars 10 digits 0
      some (if negative then -size else size)
    else none

/-- Digits around an optional point, with at least one digit, and the exponent after them. -/
def readDecimal? (text : List Char) : Option Decimal :=
  let whole := text.takeWhile Char.isDigit
  let (fraction, rest) :=
    match text.dropWhile Char.isDigit with
    | '.' :: rest => (rest.takeWhile Char.isDigit, rest.dropWhile Char.isDigit)
    | rest => ([], rest)
  if (whole ++ fraction).isEmpty then none
  else
    (readExponent? rest).map fun exponent =>
      ⟨Nat.ofDigitChars 10 (whole ++ fraction) 0, exponent - fraction.length⟩

namespace Numeral

/-- The numeral that is the whole text. -/
def ofText? (text : List Char) : Option Numeral :=
  let (negative, body) := splitSign text
  (readWord? body <|> (readDecimal? body).map Magnitude.decimal).map (⟨negative, ·⟩)

/-- The double nearest to what the numeral denotes.  The sign is kept, also for a value that rounds to zero. -/
def toFloat (n : Numeral) : Float :=
  match n.magnitude with
  | .infinity => Binary64.infinity n.negative
  | .nan => Binary64.nan
  | .decimal value => Binary64.ofPlace n.negative value.nearestPlace

end Numeral

/-- A text without the white space at its two ends. -/
def trim (text : List Char) : List Char :=
  ((text.dropWhile Character.isWhiteSpace).reverse.dropWhile Character.isWhiteSpace).reverse

/-- **The double that a text writes**, white space around it apart.  A refusal names the text as it was given. -/
def read (text : String) : Except Fault Float :=
  match Numeral.ofText? (trim text.toList) with
  | some numeral => .ok numeral.toFloat
  | none => .error (.malformedNumber text)

end Number
end Calculator
