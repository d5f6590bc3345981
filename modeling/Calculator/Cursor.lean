import Calculator.Lexeme
/-!
# Cursor — a place in a text, and what can be taken from there

The place is counted in bytes of UTF-8, as editors and error reports count it.  A cursor is a value: taking from one
gives a new one and leaves the old one as it was.
-/
namespace Calculator

/-- The size of a text in UTF-8. -/
def byteLength : List Char → Nat
  | [] => 0
  | c :: rest => c.utf8Size + byteLength rest

theorem byteLength_append : ∀ left right : List Char, byteLength (left ++ right) = byteLength left + byteLength right
  | [], right => (Nat.zero_add _).symm
  | c :: left, right => by
    rw [List.cons_append, byteLength, byteLength, byteLength_append left right, Nat.add_assoc]

structure Cursor where
  source : List Char
  /-- How many bytes of the source lie behind. -/
  position : Nat
  /-- The part of the source that lies ahead. -/
  ahead : List Char
  deriving DecidableEq, Repr

namespace Cursor

def ofText (text : String) : Cursor := ⟨text.toList, 0, text.toList⟩

def peek? (c : Cursor) : Option Char := c.ahead.head?

def isExhausted (c : Cursor) : Bool := c.ahead.isEmpty

def remaining (c : Cursor) : String := String.ofList c.ahead

/-- Whatever character comes next, if one does. -/
def takeChar (c : Cursor) : Option Char × Cursor :=
  match c.ahead with
  | [] => (none, c)
  | next :: rest => (some next, { c with position := c.position + next.utf8Size, ahead := rest })

/-- The longest lexeme of the kind; nothing is taken when none starts here. -/
def take (c : Cursor) (kind : Lexeme) : String × Cursor :=
  let (taken, rest) := kind.split c.ahead
  (String.ofList taken, { c with position := c.position + byteLength taken, ahead := rest })

/-! ## Walks -/

/-- One thing to do with a cursor. -/
inductive Action where
  | peek
  | takeChar
  | take (kind : Lexeme)
  | remaining
  /-- Keep the cursor as it is now. -/
  | save
  /-- Go on from the kept cursor. -/
  | restore
  deriving DecidableEq, Repr

/-- What an action shows. -/
inductive Answer where
  | nothing
  | character (found : Option Char)
  | text (taken : String)
  deriving DecidableEq, Repr

/-- A cursor beside one that was kept, at first the start of the text. -/
structure Walk where
  current : Cursor
  kept : Cursor
  deriving DecidableEq, Repr

namespace Walk

def start (text : String) : Walk := ⟨ofText text, ofText text⟩

def perform (w : Walk) : Action → Answer × Walk
  | .peek => (.character w.current.peek?, w)
  | .takeChar =>
    let (found, next) := w.current.takeChar
    (.character found, { w with current := next })
  | .take kind =>
    let (taken, next) := w.current.take kind
    (.text taken, { w with current := next })
  | .remaining => (.text w.current.remaining, w)
  | .save => (.nothing, { w with kept := w.current })
  | .restore => (.nothing, { w with current := w.kept })

end Walk
end Cursor
end Calculator
