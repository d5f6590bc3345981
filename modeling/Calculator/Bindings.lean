/-!
# Bindings — names with values, in ascending order of the names

Names are compared by code point.  Ascending bindings have no name twice, inserting keeps them ascending, and what
they bind determines them: two of them that find the same values are equal.
-/
namespace Calculator

/-- Names with their values. -/
abbrev Bindings := List (String × Float)

namespace Bindings

/-- Puts a binding where its name belongs, in the place of an earlier one of that name. -/
def insert (name : String) (value : Float) : Bindings → Bindings
  | [] => [(name, value)]
  | first :: rest =>
    if name < first.1 then (name, value) :: first :: rest
    else if name = first.1 then (name, value) :: rest
    else first :: insert name value rest

/-- The value that a name is bound to. -/
def find? (name : String) : Bindings → Option Float
  | [] => none
  | first :: rest => if name = first.1 then some first.2 else find? name rest

theorem mem_insert {name : String} {value : Float} {binding : String × Float} :
    ∀ {bindings : Bindings}, binding ∈ insert name value bindings →
      binding.1 = name ∨ binding ∈ bindings
  | [], h => by simp_all [insert]
  | first :: rest, h => by
    simp only [insert] at h
    split at h
    · rcases List.mem_cons.1 h with rfl | h
      · exact .inl rfl
      · exact .inr h
    · split at h
      · rcases List.mem_cons.1 h with rfl | h
        · exact .inl rfl
        · exact .inr (List.mem_cons_of_mem _ h)
      · rcases List.mem_cons.1 h with rfl | h
        · exact .inr List.mem_cons_self
        · exact (mem_insert h).imp_right (List.mem_cons_of_mem _)

theorem pairwise_insert (name : String) (value : Float) :
    ∀ {bindings : Bindings}, bindings.Pairwise (·.1 < ·.1) →
      (insert name value bindings).Pairwise (·.1 < ·.1)
  | [], _ => by simp [insert]
  | first :: rest, h => by
    obtain ⟨hfirst, hrest⟩ := List.pairwise_cons.1 h
    simp only [insert]
    split
    · rename_i hlt
      refine List.pairwise_cons.2 ⟨fun b hb => ?_, h⟩
      rcases List.mem_cons.1 hb with rfl | hb
      · exact hlt
      · exact String.lt_trans hlt (hfirst b hb)
    · rename_i hnot
      split
      · rename_i heq
        exact List.pairwise_cons.2 ⟨fun b hb => heq ▸ hfirst b hb, hrest⟩
      · rename_i hne
        refine List.pairwise_cons.2 ⟨fun b hb => ?_, pairwise_insert name value hrest⟩
        rcases mem_insert hb with heq | hb
        · have hle : first.1 ≤ name := String.not_lt.1 hnot
          rw [heq]
          refine Classical.byContradiction fun hge => hne ?_
          exact String.le_antisymm (String.not_lt.1 hge) hle
        · exact hfirst b hb

theorem find?_insert (name : String) (value : Float) (other : String) :
    ∀ bindings : Bindings, find? other (insert name value bindings) =
      if other = name then some value else find? other bindings
  | [] => rfl
  | first :: rest => by
    have ih := find?_insert name value other rest
    simp only [insert]
    split
    · rfl
    · split
      · rename_i heq
        by_cases h : other = name
        · simp only [find?, h, if_true]
        · simp only [find?, h, heq ▸ h, if_false]
      · rename_i hne
        by_cases h : other = name
        · subst h
          simp only [find?, hne, if_false, if_true] at ih ⊢
          exact ih
        · simp only [h, if_false] at ih ⊢
          simp only [find?, ih]

/-- A name below all names of the bindings is not among them. -/
theorem find?_eq_none_of_lt {name : String} :
    ∀ {bindings : Bindings}, (∀ b ∈ bindings, name < b.1) → find? name bindings = none
  | [], _ => rfl
  | first :: rest, h => by
    have hne : name ≠ first.1 := fun heq => String.lt_irrefl _ (heq ▸ h first List.mem_cons_self)
    have ih := find?_eq_none_of_lt fun b hb => h b (List.mem_cons_of_mem _ hb)
    simp only [find?, hne, if_false, ih]

/-- The first name of ascending bindings is not above one that is bound. -/
theorem not_lt_of_find? {name : String} {value : Float} {first : String × Float} {rest : Bindings}
    (h : (first :: rest).Pairwise (·.1 < ·.1)) (hfind : find? name (first :: rest) = some value) :
    ¬ name < first.1 := by
  intro hlt
  have hnone : find? name (first :: rest) = none := by
    refine find?_eq_none_of_lt fun b hb => ?_
    rcases List.mem_cons.1 hb with rfl | hb
    · exact hlt
    · exact String.lt_trans hlt ((List.pairwise_cons.1 h).1 b hb)
  rw [hnone] at hfind
  cases hfind

/-- Ascending bindings are known by what they bind. -/
theorem eq_of_find?_eq : ∀ {left right : Bindings},
    left.Pairwise (·.1 < ·.1) → right.Pairwise (·.1 < ·.1) →
      (∀ name, find? name left = find? name right) → left = right
  | [], [], _, _, _ => rfl
  | [], first :: rest, _, _, h => by
    have := h first.1
    simp only [find?, if_true] at this
    cases this
  | first :: rest, [], _, _, h => by
    have := h first.1
    simp only [find?, if_true] at this
    cases this
  | (name, value) :: left, (name', value') :: right, hl, hr, h => by
    have found : find? name ((name, value) :: left) = some value := by simp only [find?, if_true]
    have found' : find? name' ((name', value') :: right) = some value' := by simp only [find?, if_true]
    have hname : name = name' := String.le_antisymm
      (String.not_lt.1 (not_lt_of_find? hl ((h name').trans found')))
      (String.not_lt.1 (not_lt_of_find? hr ((h name).symm.trans found)))
    subst hname
    have hvalue : value = value' := Option.some.inj (found.symm.trans ((h name).trans found'))
    subst hvalue
    obtain ⟨below, hl⟩ := List.pairwise_cons.1 hl
    obtain ⟨below', hr⟩ := List.pairwise_cons.1 hr
    have hrest : left = right := eq_of_find?_eq hl hr fun other => by
      by_cases ho : other = name
      · subst ho
        rw [find?_eq_none_of_lt below, find?_eq_none_of_lt below']
      · have := h other
        simp only [find?, ho, if_false] at this
        exact this
    rw [hrest]

end Bindings

end Calculator
