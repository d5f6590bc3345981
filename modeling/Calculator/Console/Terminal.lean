import Calculator.Console.Lines
import Calculator.Evaluation
import Calculator.Number.Writer
/-!
# Console.Terminal — what the program says and how it asks

A terminal is what the program can do to the world: write, complain, read a line, read a file.  Which monad it does
that in is left open, so the same program runs at a keyboard and on input that is known beforehand.
-/
namespace Calculator
namespace Console

/-- The result of reading a line. -/
inductive Input where
  | line (l : Line)
  /-- There are no more lines. -/
  | closed
  deriving DecidableEq, Repr

structure Terminal (m : Type → Type) where
  /-- Writes to standard output. -/
  write : String → m Unit
  /-- Writes to standard error. -/
  complain : String → m Unit
  /-- Takes the next line of standard input. -/
  readLine : m Input
  /-- The text of a file; there is none when it cannot be read or is no UTF-8. -/
  readFile : String → m (Option String)

/-! ## The texts -/

def greeting : String := "Введите выражение (например, 3 + 5 * (2 - 8) или x + y):\n"

def promptText (name : String) : String := "Введите значение для переменной '" ++ name ++ "': "

/-- The report of one evaluation. -/
def reportText : Except Fault Float → String
  | .ok value => "Результат: " ++ Number.write value ++ "\n"
  | .error fault => "Ошибка: " ++ fault.message ++ "\n"

def bindingText (binding : String × Float) : String := binding.1 ++ " = " ++ Number.write binding.2 ++ "\n"

/-- Why a line could not be read. -/
def undecodableText : String := "stream did not contain valid UTF-8"

def closedText : String := "ввод закончился"

def unreadableInputText : String := "Failed to read from standard input: " ++ undecodableText ++ "\n"

def unreadableFileText (path : String) : String :=
  "Failed to read the input file '" ++ path ++ "'. Perhaps this file does not exist?\n"

def versionText : String := "varcalc 0.1.0\n"

/-- What the arguments are for, an argument in each line, with the explanations in one column. -/
def helpText : String :=
  "An interactive arithmetic expression evaluator with prompt-on-demand variables.\n" ++
  "\n" ++
  "Usage: varcalc [OPTIONS] [EXPRESSION]\n" ++
  "\n" ++
  "Arguments:\n" ++
  "  [EXPRESSION]  Expression to evaluate. When omitted, the expression is read from standard input\n" ++
  "\n" ++
  "Options:\n" ++
  "  -f, --file <FILE>            Evaluates every non-empty line of a file in one session\n" ++
  "  -i, --interactive            Keeps reading expressions from standard input until it is closed\n" ++
  "      --max-depth <MAX_DEPTH>  Deepest parenthesis nesting accepted [default: " ++ toString defaultLimit ++ "]\n" ++
  "      --show-vars              Prints every variable bound during the session before exiting\n" ++
  "  -v, --verbose                Enables debug logging on standard error\n" ++
  "  -h, --help                   Print help\n" ++
  "  -V, --version                Print version\n"

def usageText : String :=
  "usage: varcalc [-v] [--max-depth N] [--show-vars] [EXPRESSION | -f FILE | -i]\n"

/-! ## Asking and answering -/

/-- What the bindings are by now, and whether all went well so far. -/
structure Progress where
  store : Store := .empty
  allWell : Bool := true

variable {m : Type → Type} [Monad m]

namespace Terminal

/-- Asks for the value of a variable.  The reply is the line as it was typed, its line feed included. -/
def ask (t : Terminal m) (name : String) : m Reply := do
  t.write (promptText name)
  match ← t.readLine with
  | .line (.text content) => pure (.ok content)
  | .line .undecodable => pure (.error undecodableText)
  | .closed => pure (.error closedText)

/-- Evaluates an expression and reports its outcome. -/
def answer (t : Terminal m) (limit : Nat) (p : Progress) (expression : String) : m Progress := do
  let e ← evaluate t.ask limit p.store expression
  t.write (reportText e.outcome)
  pure ⟨e.store, p.allWell && e.outcome.isOk⟩

/-- Answers each line of a script that is not blank, also after a fault. -/
def answerScript (t : Terminal m) (limit : Nat) (p : Progress) (script : String) : m Progress :=
  ((scriptLines script).filter fun line => !isBlank line).foldlM (t.answer limit) p

/-- Takes one line of standard input as an expression, and tells whether another one should follow.  Blank lines are
skipped only when there is more to come. -/
def turn (t : Terminal m) (limit : Nat) (interactive : Bool) (p : Progress) : m (Progress × Bool) := do
  match ← t.readLine with
  | .closed => pure (p, false)
  | .line .undecodable =>
    t.complain unreadableInputText
    pure ({ p with allWell := false }, false)
  | .line (.text expression) =>
    if interactive && isBlank expression then pure (p, true)
    else do
      let p ← t.answer limit p expression
      pure (p, interactive)

/-- As many turns as follow each other, but no more than `most`. -/
def turns (t : Terminal m) (limit : Nat) (interactive : Bool) : Nat → Progress → m Progress
  | 0, p => pure p
  | most + 1, p => do
    let (p, more) ← t.turn limit interactive p
    if more then t.turns limit interactive most p else pure p

end Terminal
end Console
end Calculator
