import Calculator.Fault
/-!
# Operator — the four operations on numbers

Sums and products are separate types, because they bind differently and because only a quotient can fail.  Numbers are
IEEE doubles, so a sum, a difference or a product is always a number: an overflow is an infinity, and a result that is
none of these is the NaN.
-/
namespace Calculator

/-- The operators of a sum. -/
inductive SumOperator where
  | plus
  | minus
  deriving DecidableEq, Repr

namespace SumOperator

def symbol : SumOperator → Char
  | plus => '+'
  | minus => '-'

def ofSymbol? : Char → Option SumOperator
  | '+' => some plus
  | '-' => some minus
  | _ => none

def apply : SumOperator → Float → Float → Float
  | plus, left, right => left + right
  | minus, left, right => left - right

end SumOperator

/-- The operators of a product. -/
inductive ProductOperator where
  | times
  | dividedBy
  deriving DecidableEq, Repr

namespace ProductOperator

def symbol : ProductOperator → Char
  | times => '*'
  | dividedBy => '/'

def ofSymbol? : Char → Option ProductOperator
  | '*' => some times
  | '/' => some dividedBy
  | _ => none

/-- A quotient by either zero is a fault, never an infinity. -/
def apply : ProductOperator → Float → Float → Except Fault Float
  | times, left, right => .ok (left * right)
  | dividedBy, left, right => if right == 0 then .error .divisionByZero else .ok (left / right)

end ProductOperator

/-- The operation that a character names, carried out. -/
def applySymbol (symbol : Char) (left right : Float) : Except Fault Float :=
  match SumOperator.ofSymbol? symbol, ProductOperator.ofSymbol? symbol with
  | some op, _ => .ok (op.apply left right)
  | none, some op => op.apply left right
  | none, none => .error (.unknownOperator symbol)

end Calculator
