import Calculator.Console.Lines
/-!
# Console.Files — the files of the working directory, and the paths that lead to them

A path is a way of steps and then a name, with slashes between.  A step is a dot, or nothing at all between two slashes,
and stays where it is.  The working directory holds files and no directories, so any other step leads to no file in it,
and neither does a path that starts at a slash.
-/
namespace Calculator
namespace Console

/-- Contents by name. -/
abbrev Files := List (String × ByteArray)

/-- A path has fewer bytes than this. -/
def pathBytes : Nat := 4096

/-- Whether a step, its slash included, stays where it is. -/
def staysHere (step : List Char) : Bool := step == ['.', '/'] || step == ['/']

/-- The name of the file that a path leads to, if there is a file of this name.  What ends in a slash names none,
because no file is called so. -/
def fileName? (path : String) : Option String :=
  match (cutAfter (· == '/') path.toList).reverse with
  | [] => none
  | name :: steps =>
    if path.utf8ByteSize < pathBytes ∧ steps.all staysHere ∧ steps.getLast? ≠ some ['/'] then
      some (String.ofList name)
    else none

/-- The text of the file that a path leads to; there is none when the file does not exist or is no UTF-8. -/
def Files.read? (files : Files) (path : String) : Option String :=
  (fileName? path).bind fun name => (files.lookup name).bind String.fromUTF8?

end Console
end Calculator
