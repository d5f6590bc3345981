import Calculator.Character.WhiteSpace
/-!
# Console.Lines — cutting what is typed, and what is in a script, into lines

A line of standard input keeps its line feed, as it was typed; the last one may lack it.  It is text only if its bytes
are UTF-8.  A line of a script loses its line feed and a carriage return right before that.
-/
namespace Calculator
namespace Console

/-- Cuts after each element that ends a piece.  No piece is empty, and joined together they are the whole. -/
def cutAfter {α : Type} (ends : α → Bool) : List α → List (List α)
  | [] => []
  | a :: rest =>
    if ends a then [a] :: cutAfter ends rest
    else
      match cutAfter ends rest with
      | [] => [[a]]
      | piece :: pieces => (a :: piece) :: pieces

theorem flatten_cutAfter {α : Type} (ends : α → Bool) : ∀ l : List α, (cutAfter ends l).flatten = l
  | [] => rfl
  | a :: rest => by
    have ih := flatten_cutAfter ends rest
    simp only [cutAfter]
    split
    · simp [ih]
    · split
      · rename_i h
        rw [h] at ih
        simpa using ih
      · rename_i h
        rw [h] at ih
        simpa using ih

/-- A line of standard input. -/
inductive Line where
  | text (content : String)
  /-- The bytes are no UTF-8. -/
  | undecodable
  deriving DecidableEq, Repr

namespace Line

def ofBytes (bytes : ByteArray) : Line :=
  match String.fromUTF8? bytes with
  | some content => text content
  | none => undecodable

/-- The lines of a whole standard input. -/
def allOfBytes (bytes : ByteArray) : List Line :=
  (cutAfter (· == 10) bytes.toList).map fun line => ofBytes ⟨line.toArray⟩

end Line

/-- A line without the line feed at its end and a carriage return before that; without a line feed nothing is
dropped. -/
def withoutLineEnd (line : List Char) : List Char :=
  match line.reverse with
  | '\n' :: '\r' :: front => front.reverse
  | '\n' :: front => front.reverse
  | _ => line

/-- The lines of a script. -/
def scriptLines (script : String) : List String :=
  (cutAfter (· == '\n') script.toList).map fun line => String.ofList (withoutLineEnd line)

/-- Whether a line holds nothing but white space. -/
def isBlank (line : String) : Bool := line.toList.all Character.isWhiteSpace

end Console
end Calculator
