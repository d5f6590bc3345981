import Calculator.Character.WhiteSpace
import Calculator.Machine
/-!
# Evaluation — the value of an expression

White space means nothing anywhere in an expression, not even within a number or a name, so an expression is
evaluated without it.  A source is a text in which it has been left out already; white space in a source is an
unknown character.
-/
namespace Calculator

/-- The number of parentheses that may be open at a time where nothing else is said. -/
def defaultLimit : Nat := 256

/-- The text less its white space. -/
def withoutWhiteSpace (text : String) : String :=
  String.ofList (text.toList.filter fun c => !Character.isWhiteSpace c)

/-- The evaluation of a source, as the lookups it makes. -/
def dialogueOf (limit : Nat) (source : String) : Dialogue := Machine.dialogue limit (.start source.toList)

variable {m : Type → Type} [Monad m]

/-- Evaluates a source on a store. -/
def evaluateSource (ask : String → m Reply) (limit : Nat) (store : Store) (source : String) : m Evaluation :=
  (dialogueOf limit source).run ask store

/-- **Evaluates an expression on a store**, asking for each variable that is not bound. -/
def evaluate (ask : String → m Reply) (limit : Nat) (store : Store) (expression : String) : m Evaluation :=
  evaluateSource ask limit store (withoutWhiteSpace expression)

end Calculator
