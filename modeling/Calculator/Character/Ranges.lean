/-!
# Character.Ranges — sets of characters as ascending ranges of code points

A property of the Unicode Standard is a list of ranges in ascending order.  Membership stops at the first range that
starts above the character, so it never looks at the rest of the list.
-/
namespace Calculator
namespace Character

/-- First and last code point of each stretch of a set, in ascending order and without overlap. -/
abbrev Ranges := List (Nat × Nat)

namespace Ranges

/-- Whether one of the ranges holds the code point. -/
def contains : Ranges → Nat → Bool
  | [], _ => false
  | (first, last) :: rest, c => first ≤ c && (c ≤ last || contains rest c)

/-- Each range runs upwards and ends below the next one. -/
def Ascending : Ranges → Prop
  | [] => True
  | [(first, last)] => first ≤ last
  | (first, last) :: (next, after) :: rest => first ≤ last ∧ last < next ∧ Ascending ((next, after) :: rest)

instance decidableAscending : (ranges : Ranges) → Decidable ranges.Ascending
  | [] => .isTrue trivial
  | [(first, last)] => inferInstanceAs (Decidable (first ≤ last))
  | (first, last) :: (next, after) :: rest =>
    have := decidableAscending ((next, after) :: rest)
    inferInstanceAs (Decidable (first ≤ last ∧ last < next ∧ Ascending ((next, after) :: rest)))

theorem Ascending.tail {range : Nat × Nat} : ∀ {rest : Ranges}, Ascending (range :: rest) → rest.Ascending
  | [], _ => trivial
  | _ :: _, h => h.2.2

/-- In an ascending list no range reaches back to where the one before it starts. -/
theorem Ascending.first_le {range : Nat × Nat} :
    ∀ {rest : Ranges}, Ascending (range :: rest) → ∀ r ∈ rest, range.1 ≤ r.1
  | next :: rest, h, r, hr => by
    obtain ⟨h1, h2, h3⟩ := h
    rcases List.mem_cons.1 hr with rfl | hr
    · omega
    · have := h3.first_le r hr
      omega

/-- **Stopping early loses nothing**: on an ascending list the lookup says whether some range holds the code point. -/
theorem contains_iff : ∀ {ranges : Ranges}, ranges.Ascending → ∀ c : Nat,
    ranges.contains c = true ↔ ∃ r ∈ ranges, r.1 ≤ c ∧ c ≤ r.2
  | [], _, c => by simp [contains]
  | (first, last) :: rest, h, c => by
    have ih := contains_iff h.tail c
    have hle := h.first_le
    simp only [contains, Bool.and_eq_true, Bool.or_eq_true, decide_eq_true_eq, List.mem_cons, exists_eq_or_imp, ih]
    constructor
    · rintro ⟨h1, h2 | h2⟩
      · exact .inl ⟨h1, h2⟩
      · exact .inr h2
    · rintro (h1 | ⟨r, hr, h1, h2⟩)
      · exact ⟨h1.1, .inl h1.2⟩
      · exact ⟨Nat.le_trans (hle r hr) h1, .inr ⟨r, hr, h1, h2⟩⟩

end Ranges
end Character
end Calculator
