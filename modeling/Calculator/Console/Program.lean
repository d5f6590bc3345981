import Calculator.Console.Arguments
import Calculator.Console.Files
import Calculator.Console.Terminal
/-!
# Console.Program — one run of the program from its arguments to its exit code

`Terminal.run` is the program on any terminal; `runRecorded` is the program on input that is known beforehand.
-/
namespace Calculator
namespace Console

variable {m : Type → Type} [Monad m]

namespace Terminal

/-- Answers what the options ask for and gives the exit code.  How many turns a console takes is for the caller to
say, who knows whether its standard input ends. -/
def calculate (t : Terminal m) (console : (limit : Nat) → (interactive : Bool) → Progress → m Progress)
    (o : Options) : m Nat := do
  let progress? ←
    match o.source with
    | .argument expression => some <$> t.answer o.limit {} expression
    | .script path => do
      match ← t.readFile path with
      | some script => some <$> t.answerScript o.limit {} script
      | none =>
        t.complain (unreadableFileText path)
        pure none
    | .console interactive => do
      t.write greeting
      some <$> console o.limit interactive {}
  match progress? with
  | none => pure 1
  | some p =>
    if o.showVariables then p.store.toList.forM fun binding => t.write (bindingText binding)
    pure (if p.allWell then 0 else 1)

/-- Runs the program.  A refused command line reads nothing and has the exit code 2. -/
def run (t : Terminal m) (console : (limit : Nat) → (interactive : Bool) → Progress → m Progress)
    (arguments : List String) : m Nat := do
  match Arguments.read arguments with
  | .refused =>
    t.complain usageText
    pure 2
  | .help =>
    t.write helpText
    pure 0
  | .version =>
    t.write versionText
    pure 0
  | .calculate options => t.calculate console options

end Terminal

/-! ## Runs on recorded input -/

/-- Standard input that has not been read yet, and what has been written. -/
structure Recording where
  input : List Line
  output : String := ""
  complaints : String := ""
  deriving DecidableEq, Repr

/-- The terminal that reads from a recording and writes to it. -/
def recorded (files : Files) : Terminal (StateM Recording) where
  write text := modify fun r => { r with output := r.output ++ text }
  complain text := modify fun r => { r with complaints := r.complaints ++ text }
  readLine := modifyGet fun r =>
    match r.input with
    | [] => (.closed, r)
    | line :: rest => (.line line, { r with input := rest })
  readFile path := pure (files.read? path)

/-- A whole run on known arguments, files and standard input: its exit code, and what it wrote.  A turn that another
one follows has taken a line, so there is at most one turn more than there are lines. -/
def runRecorded (arguments : List String) (files : Files) (input : List Line) : Nat × Recording :=
  let t := recorded files
  (t.run (fun limit interactive => t.turns limit interactive (input.length + 1)) arguments).run ⟨input, "", ""⟩

end Console
end Calculator
