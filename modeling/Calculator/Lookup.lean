import Calculator.Number.Reader
import Calculator.Store
/-!
# Lookup — the value of a variable, from the store or from whoever can be asked

A variable that is bound has its value.  For any other one its value is asked for, as a text; only a text that writes
a number binds it.  Who is asked is a parameter: a person at a terminal, a script, or a function.
-/
namespace Calculator

/-- What is said when a value is asked for: a text, or why there is none. -/
abbrev Reply := Except String String

/-- One use of a variable, and how its value was looked for. -/
inductive Lookup where
  | known (name : String)
  | asked (name : String) (reply : Reply)

namespace Lookup

def name : Lookup → String
  | known name => name
  | asked name _ => name

/-- The name, if it had to be asked for. -/
def prompt? : Lookup → Option String
  | known _ => none
  | asked name _ => some name

end Lookup

/-- How a lookup ended. -/
structure Resolution where
  value : Except Fault Float
  store : Store
  lookup : Lookup

namespace Store

/-- A reply that writes a number binds the name to it; any other reply leaves the store as it is. -/
def settle (s : Store) (name : String) (reply : Reply) : Resolution :=
  match reply with
  | .error details => ⟨.error (.unresolved name details), s, .asked name reply⟩
  | .ok text =>
    match Number.read text with
    | .error fault => ⟨.error fault, s, .asked name reply⟩
    | .ok value => ⟨.ok value, s.insert name value, .asked name reply⟩

/-- **The value of a variable.**  Nobody is asked for one that is bound. -/
def resolve {m : Type → Type} [Monad m] (ask : String → m Reply) (s : Store) (name : String) : m Resolution :=
  match s.get? name with
  | some value => pure ⟨.ok value, s, .known name⟩
  | none => s.settle name <$> ask name

end Store
end Calculator
