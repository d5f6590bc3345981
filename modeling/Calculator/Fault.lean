/-!
# Fault — why an evaluation yields no number

One constructor for each cause, with what the message needs to name it.  The wording lives in `Fault.message` alone.
-/
namespace Calculator

/-- The cause that stopped an evaluation. -/
inductive Fault where
  /-- The text ended where an operand was expected. -/
  | unexpectedEnd
  /-- A character that cannot stand where it stands. -/
  | unknownCharacter (found : Char)
  /-- A parenthesis without its partner. -/
  | mismatchedParenthesis
  /-- The right operand of a division is zero. -/
  | divisionByZero
  /-- A character that is no arithmetic operator was applied as one. -/
  | unknownOperator (symbol : Char)
  /-- A text that does not write a number. -/
  | malformedNumber (text : String)
  /-- More parentheses are open than the limit allows. -/
  | tooDeep (limit : Nat)
  /-- No value could be had for a variable. -/
  | unresolved (name details : String)
  deriving DecidableEq, Repr

namespace Fault

/-- The line a reader is shown.  Payloads appear as they are, nothing in them is escaped. -/
def message : Fault → String
  | unexpectedEnd => "Неожиданный конец выражения."
  | unknownCharacter found => "Неизвестный символ: " ++ String.singleton found
  | mismatchedParenthesis => "Несоответствующая скобка."
  | divisionByZero => "Деление на ноль."
  | unknownOperator symbol => "Неизвестный оператор: " ++ String.singleton symbol
  | malformedNumber text => "Некорректное число: \"" ++ text ++ "\""
  | tooDeep limit => "Выражение слишком сложное: вложенность скобок больше " ++ toString limit ++ "."
  | unresolved name details => "Не удалось получить значение переменной '" ++ name ++ "': " ++ details

end Fault
end Calculator
