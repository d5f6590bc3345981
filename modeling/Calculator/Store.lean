import Calculator.Bindings
/-!
# Store — the values of the variables

The bindings are kept in ascending order of their names, with no name twice.  So two stores with the same bindings
are one and the same store, however they came about, and listing a store needs no sorting.
-/
namespace Calculator

/-- The variables that have a value. -/
structure Store where
  bindings : Bindings := []
  ascending : bindings.Pairwise (·.1 < ·.1) := by exact List.Pairwise.nil

namespace Store

def empty : Store := {}

def get? (s : Store) (name : String) : Option Float := Bindings.find? name s.bindings

def contains (s : Store) (name : String) : Bool := (s.get? name).isSome

def size (s : Store) : Nat := s.bindings.length

def isEmpty (s : Store) : Bool := s.bindings.isEmpty

/-- The bindings in ascending order of their names. -/
def toList (s : Store) : Bindings := s.bindings

def insert (s : Store) (name : String) (value : Float) : Store :=
  ⟨Bindings.insert name value s.bindings, Bindings.pairwise_insert name value s.ascending⟩

@[simp] theorem get?_empty (name : String) : empty.get? name = none := rfl

theorem get?_insert (s : Store) (name other : String) (value : Float) :
    (s.insert name value).get? other = if other = name then some value else s.get? other :=
  Bindings.find?_insert name value other s.bindings

/-- **Stores that bind the same names to the same values are one store.** -/
@[ext] theorem ext_get? {s t : Store} (h : ∀ name, s.get? name = t.get? name) : s = t := by
  obtain ⟨bindings, ascending⟩ := s
  obtain ⟨bindings', ascending'⟩ := t
  have : bindings = bindings' := Bindings.eq_of_find?_eq ascending ascending' h
  subst this
  rfl

end Store
end Calculator
