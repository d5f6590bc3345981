import Calculator.Lookup
/-!
# Dialogue — an evaluation as the lookups it makes

All that an evaluation needs from outside is the values of its variables, one after another, each when it is
reached.  A dialogue is the evaluation with just these left open: it is over, or it names a variable and goes on for
each value that the variable could have.  `Dialogue.run` then supplies the values from a store and from whoever can
be asked.
-/
namespace Calculator

/-- An evaluation that waits for the values of its variables. -/
inductive Dialogue where
  /-- The outcome, and the part of the text that was not read for it. -/
  | done (outcome : Except Fault Float) (unread : List Char)
  /-- A variable whose value is needed next, the text after its name, and how its value is used. -/
  | lookup (name : String) (unread : List Char) (proceed : Float → Dialogue)

/-- A finished evaluation. -/
structure Evaluation where
  outcome : Except Fault Float
  /-- The bindings afterwards; those that were made stay, also when the outcome is a fault. -/
  store : Store
  /-- The uses of variables, in order. -/
  lookups : List Lookup
  /-- What is left of the text where the evaluation stopped. -/
  unread : List Char

/-- The names that were asked for, in order. -/
def Evaluation.prompts (e : Evaluation) : List String := e.lookups.filterMap Lookup.prompt?

/-- Carries a dialogue out; the first lookup without a value ends it. -/
def Dialogue.run {m : Type → Type} [Monad m] (ask : String → m Reply) : Store → Dialogue → m Evaluation
  | store, .done outcome unread => pure ⟨outcome, store, [], unread⟩
  | store, .lookup name unread proceed => do
    let found ← store.resolve ask name
    match found.value with
    | .error fault => pure ⟨.error fault, found.store, [found.lookup], unread⟩
    | .ok value =>
      let e ← run ask found.store (proceed value)
      pure { e with lookups := found.lookup :: e.lookups }

end Calculator
