import Calculator.Dialogue
import Calculator.Lexeme
import Calculator.Operator
/-!
# Grammar — expressions as trees

A factor is a number, a name or an expression in parentheses; a term is a product of factors, and an expression a sum
of terms, both grouped from the left.  A tree is written in one way only, and its value is computed from left to
right: each operation as soon as its right operand is known, and the first fault ends it all.
-/
namespace Calculator

/-- Whether the whole text is one lexeme of the kind. -/
def Lexeme.covers (kind : Lexeme) : List Char → Bool
  | [] => false
  | c :: rest => kind.starts c && rest.all kind.continues

/-- What binds tightest comes first. -/
inductive Level where
  | factor
  | term
  | expression
  deriving DecidableEq, Repr

/-- The expressions of the grammar, by level. -/
inductive Tree : Level → Type where
  | number (span : List Char) (covered : Lexeme.number.covers span = true) : Tree .factor
  | name (span : List Char) (covered : Lexeme.name.covers span = true) : Tree .factor
  | group (inner : Tree .expression) : Tree .factor
  | factor (only : Tree .factor) : Tree .term
  | product (left : Tree .term) (op : ProductOperator) (right : Tree .factor) : Tree .term
  | term (only : Tree .term) : Tree .expression
  | sum (left : Tree .expression) (op : SumOperator) (right : Tree .term) : Tree .expression

namespace Tree

/-- A tree as it is written. -/
def text : {level : Level} → Tree level → List Char
  | _, number span _ => span
  | _, name span _ => span
  | _, group inner => '(' :: inner.text ++ [')']
  | _, factor only => only.text
  | _, product left op right => left.text ++ op.symbol :: right.text
  | _, term only => only.text
  | _, sum left op right => left.text ++ op.symbol :: right.text

/-- How deep parentheses are nested. -/
def nesting : {level : Level} → Tree level → Nat
  | _, number _ _ => 0
  | _, name _ _ => 0
  | _, group inner => inner.nesting + 1
  | _, factor only => only.nesting
  | _, product left _ right => max left.nesting right.nesting
  | _, term only => only.nesting
  | _, sum left _ right => max left.nesting right.nesting

/-- The outcome of a tree, the bindings afterwards and the uses of variables. -/
abbrev Result := Except Fault Float × Store × List Lookup

variable {m : Type → Type} [Monad m]

/-- The left operand, then the right one on the bindings that the left one leaves, then the operation. -/
def inOrder (apply : Float → Float → Except Fault Float) (left right : Store → m Result) (store : Store) :
    m Result := do
  let (first, store, lookups) ← left store
  match first with
  | .error fault => pure (.error fault, store, lookups)
  | .ok a => do
    let (second, store, more) ← right store
    pure (second.bind (apply a), store, lookups ++ more)

/-- **The value of a tree**, computed from left to right. -/
def evaluate (ask : String → m Reply) : {level : Level} → Tree level → Store → m Result
  | _, number span _, store => pure (Number.read (String.ofList span), store, [])
  | _, name span _, store => do
    let found ← store.resolve ask (String.ofList span)
    pure (found.value, found.store, [found.lookup])
  | _, group inner, store => inner.evaluate ask store
  | _, factor only, store => only.evaluate ask store
  | _, product left op right, store => inOrder op.apply (left.evaluate ask) (right.evaluate ask) store
  | _, term only, store => only.evaluate ask store
  | _, sum left op right, store =>
    inOrder (fun a b => .ok (op.apply a b)) (left.evaluate ask) (right.evaluate ask) store

end Tree
end Calculator
