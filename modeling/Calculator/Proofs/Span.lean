import Calculator.Grammar
/-!
# Proofs.Span — the lexeme at the start of a text

Splitting a lexeme off gives a span that the lexeme covers, and the span ends where the text does or before a
character that does not go on with it; and that determines the span (`split_append_of_covers`).  No character begins
both kinds, and neither kind goes on with a sign of the grammar.
-/
namespace Calculator
namespace Lexeme

/-- Whether a span before this text could not be longer. -/
def Ends (kind : Lexeme) (rest : List Char) : Prop := ∀ c ∈ rest.head?, kind.continues c = false

theorem Ends.append {kind : Lexeme} {rest : List Char} (h : kind.Ends rest) (hr : rest ≠ []) (t : List Char) :
    kind.Ends (rest ++ t) := by
  cases rest with
  | nil => exact absurd rfl hr
  | cons c rest => exact h

theorem covers_iff {kind : Lexeme} {span : List Char} :
    kind.covers span = true ↔
      ∃ c rest, span = c :: rest ∧ kind.starts c = true ∧ ∀ d ∈ rest, kind.continues d = true := by
  cases span with
  | nil => simp [covers]
  | cons c rest =>
    rw [covers, Bool.and_eq_true, List.all_eq_true]
    constructor
    · rintro ⟨hc, hrest⟩
      exact ⟨c, rest, rfl, hc, hrest⟩
    · rintro ⟨c', rest', h, hc, hrest⟩
      cases h
      exact ⟨hc, hrest⟩

theorem takeWhile_append_of_ends {p : Char → Bool} :
    ∀ {span rest : List Char}, (∀ d ∈ span, p d = true) → (∀ c ∈ rest.head?, p c = false) →
      (span ++ rest).takeWhile p = span ∧ (span ++ rest).dropWhile p = rest
  | [], [], _, _ => ⟨rfl, rfl⟩
  | [], c :: rest, _, h => by
    have hc : p c = false := h c rfl
    simp [hc]
  | d :: span, rest, hs, h => by
    obtain ⟨ht, hd⟩ := takeWhile_append_of_ends (fun d' hd' => hs d' (List.mem_cons_of_mem d hd')) h
    have hc : p d = true := hs d List.mem_cons_self
    simp [hc, ht, hd]

theorem split_append_of_covers {kind : Lexeme} {span rest : List Char} (hs : kind.covers span = true)
    (h : kind.Ends rest) : kind.split (span ++ rest) = (span, rest) := by
  obtain ⟨c, tail, rfl, hc, htail⟩ := covers_iff.1 hs
  obtain ⟨ht, hd⟩ := takeWhile_append_of_ends htail h
  rw [List.cons_append, split, if_pos hc, ht, hd]

/-- **What splitting off a lexeme comes to**, where one begins. -/
theorem exists_split {kind : Lexeme} {c : Char} (rest : List Char) (h : kind.starts c = true) :
    ∃ span tail, c :: rest = span ++ tail ∧ kind.covers span = true ∧ kind.Ends tail ∧
      kind.split (c :: rest) = (span, tail) := by
  refine ⟨c :: rest.takeWhile kind.continues, rest.dropWhile kind.continues, ?_, ?_, ?_, ?_⟩
  · rw [List.cons_append, List.takeWhile_append_dropWhile]
  · exact covers_iff.2 ⟨c, _, rfl, h, List.all_eq_true.1 List.all_takeWhile⟩
  · intro d hd
    have := List.head?_dropWhile_not kind.continues rest
    rw [Option.mem_def.1 hd] at this
    simpa using this
  · rw [split, if_pos h]

/-! ## Which characters begin which kind -/

theorem not_isAlphabetic_of_lt {c : Char} (h : c.toNat < 0x41) : Character.isAlphabetic c = false := by
  unfold Character.isAlphabetic Character.alphabeticRanges
  rw [Character.Ranges.contains, decide_eq_false (Nat.not_le.2 h), Bool.false_and]

theorem not_name_of_number {c : Char} (h : number.starts c = true) : name.starts c = false := by
  refine not_isAlphabetic_of_lt ?_
  simp only [starts, Bool.or_eq_true, beq_iff_eq] at h
  rcases h with h | rfl
  · have : c.toNat ≤ 57 := (Char.isDigit_iff_toNat.1 h).2
    omega
  · decide

theorem ofChar?_of_starts : ∀ {kind : Lexeme} {c : Char}, kind.starts c = true → ofChar? c = some kind
  | number, c, h => by rw [ofChar?, if_pos h]
  | name, c, h => by
    have hn : ¬ number.starts c = true := fun hn => by
      rw [not_name_of_number hn] at h
      cases h
    rw [ofChar?, if_neg hn, if_pos h]

/-- A text that begins with a lexeme, by its first character. -/
theorem exists_cons {kind : Lexeme} {span rest : List Char} (hs : kind.covers span = true) (hr : kind.Ends rest) :
    ∃ c tail, span ++ rest = c :: tail ∧ ofChar? c = some kind ∧ kind.split (c :: tail) = (span, rest) := by
  have hsplit := split_append_of_covers hs hr
  obtain ⟨c, tail, rfl, hc, -⟩ := covers_iff.1 hs
  exact ⟨c, tail ++ rest, rfl, ofChar?_of_starts hc, hsplit⟩

theorem not_starts_of_ofChar? {c : Char} (h : ofChar? c = none) (kind : Lexeme) : kind.starts c = false := by
  cases hs : kind.starts c with
  | false => rfl
  | true =>
    rw [ofChar?_of_starts hs] at h
    cases h

/-- The signs of the grammar: what can follow an operand. -/
def signs : List Char := ['+', '-', '*', '/', ')']

theorem not_continues_of_mem_signs (kind : Lexeme) : ∀ c ∈ signs, kind.continues c = false := by
  intro c hc
  simp only [signs, List.mem_cons, List.not_mem_nil, or_false] at hc
  rcases hc with rfl | rfl | rfl | rfl | rfl <;> cases kind <;> decide

end Lexeme
end Calculator
