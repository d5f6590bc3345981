import Calculator.Character.Alphabetic
import Calculator.Character.DecimalDigit
/-!
# Lexeme — the two kinds of text that stand for an operand

A number begins with an ASCII digit or a minus sign and goes on with ASCII digits and points; whether it makes sense
is for `Number.read` to say.  A name begins with an alphabetic character and goes on with alphabetic characters and
decimal digits of any script.  Both reach as far as they can.
-/
namespace Calculator

inductive Lexeme where
  | number
  | name
  deriving DecidableEq, Repr

namespace Lexeme

/-- The characters that the kind begins with. -/
def starts : Lexeme → Char → Bool
  | number, c => c.isDigit || c == '-'
  | name, c => Character.isAlphabetic c

/-- The characters that the kind goes on with. -/
def continues : Lexeme → Char → Bool
  | number, c => c.isDigit || c == '.'
  | name, c => Character.isAlphabetic c || Character.isDecimalDigit c

/-- The kind that begins with the character. -/
def ofChar? (c : Char) : Option Lexeme :=
  if number.starts c then some number
  else if name.starts c then some name
  else none

/-- The longest lexeme of the kind at the start of a text, empty when there is none, and the text after it. -/
def split (kind : Lexeme) : List Char → List Char × List Char
  | [] => ([], [])
  | c :: rest =>
    if kind.starts c then (c :: rest.takeWhile kind.continues, rest.dropWhile kind.continues) else ([], c :: rest)

/-- The lexeme at the start of a text: its kind, its characters and the text after them. -/
def first? : List Char → Option (Lexeme × List Char × List Char)
  | [] => none
  | c :: rest => (ofChar? c).map fun kind => (kind, kind.split (c :: rest))

theorem starts_of_ofChar? {c : Char} {kind : Lexeme} (h : ofChar? c = some kind) : kind.starts c = true := by
  unfold ofChar? at h
  split at h
  · cases h; assumption
  · split at h
    · cases h; assumption
    · cases h

theorem split_append (kind : Lexeme) : ∀ text : List Char, (kind.split text).1 ++ (kind.split text).2 = text
  | [] => rfl
  | c :: rest => by
    simp only [split]
    split
    · simp
    · rfl

/-- Where a lexeme starts, splitting it off leaves less text. -/
theorem length_split_lt {kind : Lexeme} {c : Char} {rest : List Char} (h : kind.starts c = true) :
    (kind.split (c :: rest)).2.length < (c :: rest).length := by
  have := (List.dropWhile_suffix kind.continues : rest.dropWhile kind.continues <:+ rest).length_le
  simp only [split, h, if_true, List.length_cons]
  omega

end Lexeme
end Calculator
