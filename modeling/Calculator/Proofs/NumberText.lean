import Calculator.Number.Reader
import Calculator.Number.Writer
import Calculator.Proofs.Rounding
import Calculator.Proofs.Span
import Mathlib.Data.List.TakeWhile
/-!
# Proofs.NumberText — what is laid out reads as much as it was

A decimal is laid out as digits on either side of a point, and maybe an exponent.  Wherever the point is set, the text
reads as a decimal of the same value (`exists_readDecimal?_write`).  It need not be the same decimal: zeros are filled
in up to the point, and behind it where there would be no digit.
-/
namespace Calculator

/-- As many zeros more as the exponent is less. -/
theorem Decimal.units_mul_pow (c k : Nat) (e : Int) : units ⟨c * 10 ^ k, e - k⟩ = units ⟨c, e⟩ := by
  have hne : (10 : ℚ) ^ k ≠ 0 := by positivity
  rw [units, units, Nat.cast_mul, Nat.cast_pow, Nat.cast_ofNat, zpow_sub₀ (by norm_num), zpow_natCast,
    mul_assoc (c : ℚ), ← mul_div_assoc, mul_div_cancel_left₀ _ hne]

/-- The power of ten that the first digit of a decimal stands for. -/
def Decimal.order (d : Decimal) : Int := d.exponent + ((Nat.toDigits 10 d.coefficient).length - 1 : Nat)

theorem Decimal.le_order {d : Decimal} {e : Int} (h : 10 ^ e * unitsPerOne ≤ d.units) : e ≤ d.order := by
  have hpos := @Nat.length_toDigits_pos 10 d.coefficient
  by_contra hlt
  have hsize := (Nat.length_toDigits_le_iff (by decide) hpos).1 (Nat.le_refl (Nat.toDigits 10 d.coefficient).length)
  have he : d.exponent + (Nat.toDigits 10 d.coefficient).length ≤ e := by
    rw [order] at hlt
    omega
  exact not_lt.2 h (units_lt hsize he)

theorem Decimal.order_lt {d : Decimal} (hc : d.coefficient ≠ 0) {e : Int} (h : d.units < 10 ^ e * unitsPerOne) :
    d.order < e := by
  by_contra hge
  have hsize : 10 ^ ((Nat.toDigits 10 d.coefficient).length - 1) ≤ d.coefficient := by
    rcases Nat.eq_zero_or_pos ((Nat.toDigits 10 d.coefficient).length - 1) with hzero | hpos
    · rw [hzero]
      exact Nat.pos_of_ne_zero hc
    · refine Nat.le_of_not_lt fun hlt => ?_
      have := (Nat.length_toDigits_le_iff (by decide) hpos).2 hlt
      omega
  exact not_lt.2 (le_units hsize (not_lt.1 hge)) h

namespace Number

theorem isDigit_of_mem_toDigits {n : Nat} : ∀ c ∈ Nat.toDigits 10 n, c.isDigit = true :=
  fun _ hc => Nat.isDigit_of_mem_toDigits (by decide) (by decide) hc

theorem not_mem_of_digits {digits : List Char} (hd : ∀ c ∈ digits, c.isDigit = true) {c : Char}
    (hc : c.isDigit = false) : c ∉ digits :=
  fun hmem => Bool.false_ne_true (hc.symm.trans (hd c hmem))

theorem splitSign_of_digit {text : List Char} (h : ∀ c ∈ text.head?, c.isDigit = true) :
    splitSign text = (false, text) := by
  unfold splitSign
  split
  · exact absurd (h '-' rfl) (by decide)
  · exact absurd (h '+' rfl) (by decide)
  · rfl

theorem toLower_of_isDigit {c : Char} (h : c.isDigit = true) : c.toLower = c := by
  have hle : c.toNat ≤ 57 := (Char.isDigit_iff_toNat.1 h).2
  unfold Char.toLower
  refine dif_neg fun hc => ?_
  have hge : 65 ≤ c.toNat := hc.1
  omega

theorem readWord?_of_digit {c : Char} {rest : List Char} (h : c.isDigit = true) : readWord? (c :: rest) = none := by
  have hne {word : List Char} (hw : word.head?.any (fun d => !d.isDigit) = true) :
      (c :: rest).map Char.toLower ≠ word := by
    rintro rfl
    rw [List.map_cons, List.head?_cons, Option.any_some, toLower_of_isDigit h, h] at hw
    cases hw
  unfold readWord?
  dsimp only
  rw [if_neg (not_or.2 ⟨hne (by decide), hne (by decide)⟩), if_neg (hne (by decide))]

theorem readExponent?_integerText {mark : Char} (hmark : mark = 'e' ∨ mark = 'E') (n : Int) :
    readExponent? (mark :: integerText n) = some n := by
  have hread {negative : Bool} (h : splitSign (integerText n) = (negative, Nat.toDigits 10 n.natAbs)) :
      readExponent? (mark :: integerText n) = some (if negative then -(n.natAbs : Int) else n.natAbs) := by
    simp only [readExponent?, h]
    rw [if_pos ⟨hmark, Nat.toDigits_ne_nil, List.all_eq_true.2 isDigit_of_mem_toDigits⟩, Nat.ofDigitChars_ten_toDigits]
  by_cases hn : n < 0
  · have hsplit : splitSign (integerText n) = (true, Nat.toDigits 10 n.natAbs) := by
      rw [integerText, if_pos hn]
      rfl
    rw [hread hsplit, if_pos rfl]
    congr 1
    omega
  · have hsplit : splitSign (integerText n) = (false, Nat.toDigits 10 n.natAbs) := by
      rw [integerText, if_neg hn]
      exact splitSign_of_digit fun c hc => isDigit_of_mem_toDigits c (List.mem_of_mem_head? hc)
    rw [hread hsplit, if_neg Bool.false_ne_true]
    congr 1
    omega

/-! ## Digits on either side of a point -/

/-- Digits on either side of a point.  There may be none behind it. -/
structure Figures where
  whole : List Char
  fraction : List Char
  whole_ne_nil : whole ≠ []
  digits : ∀ c ∈ whole ++ fraction, c.isDigit = true

namespace Figures

def text (f : Figures) : List Char := pointed f.whole f.fraction

/-- The figures with an exponent. -/
def decimal (f : Figures) (exponent : Int) : Decimal :=
  ⟨Nat.ofDigitChars 10 (f.whole ++ f.fraction) 0, exponent - f.fraction.length⟩

variable (f : Figures)

theorem continues {c : Char} (h : c ∈ f.text) : Lexeme.number.continues c = true := by
  have hdigit : c.isDigit = true ∨ c = '.' := by
    rcases List.mem_append.1 h with hw | h
    · exact .inl (f.digits c (List.mem_append_left _ hw))
    · rcases List.mem_cons.1 h with rfl | hf
      · exact .inr rfl
      · split at hf
        · rw [List.mem_singleton.1 hf]
          exact .inl (by decide)
        · exact .inl (f.digits c (List.mem_append_right _ hf))
  rw [Lexeme.continues, Bool.or_eq_true, beq_iff_eq]
  exact hdigit

theorem exists_cons (tail : List Char) : ∃ c rest, f.text ++ tail = c :: rest ∧ c.isDigit = true := by
  obtain ⟨c, whole, hw⟩ := List.exists_cons_of_ne_nil f.whole_ne_nil
  refine ⟨c, _, by rw [text, pointed, hw]; rfl, f.digits c ?_⟩
  rw [hw]
  exact List.mem_cons_self

theorem readDecimal?_append {whole fraction tail : List Char} (hd : ∀ c ∈ whole ++ fraction, c.isDigit = true)
    (hne : whole ++ fraction ≠ []) (ht : ∀ c ∈ tail.head?, c.isDigit = false) :
    readDecimal? (whole ++ '.' :: (fraction ++ tail)) = (readExponent? tail).map fun exponent =>
      ⟨Nat.ofDigitChars 10 (whole ++ fraction) 0, exponent - fraction.length⟩ := by
  have hpoint : ∀ c ∈ ('.' :: (fraction ++ tail)).head?, c.isDigit = false := by
    intro c hc
    cases hc
    decide
  obtain ⟨htake, hdrop⟩ := Lexeme.takeWhile_append_of_ends (fun c hc => hd c (List.mem_append_left _ hc)) hpoint
  obtain ⟨htake', hdrop'⟩ := Lexeme.takeWhile_append_of_ends (fun c hc => hd c (List.mem_append_right _ hc)) ht
  simp only [readDecimal?, htake, hdrop, htake', hdrop']
  rw [if_neg (mt List.isEmpty_iff.1 hne)]

/-- **The figures read as much as they are**, with the exponent after them. -/
theorem exists_readDecimal? {tail : List Char} (ht : ∀ c ∈ tail.head?, c.isDigit = false) {exponent : Int}
    (he : readExponent? tail = some exponent) :
    ∃ d, readDecimal? (f.text ++ tail) = some d ∧ d.units = (f.decimal exponent).units := by
  obtain ⟨whole, fraction, -, hd⟩ := f
  rw [text, pointed, List.append_assoc, List.cons_append]
  cases fraction with
  | nil =>
    -- the zero that is filled in is one digit more, behind the point
    have hzero : ∀ c ∈ whole ++ ['0'], c.isDigit = true := by
      intro c hc
      rcases List.mem_append.1 hc with hw | hc
      · exact hd c (List.mem_append_left _ hw)
      · rw [List.mem_singleton.1 hc]
        decide
    refine ⟨_, by rw [List.isEmpty_nil, if_pos rfl, readDecimal?_append hzero (by simp) ht, he]; rfl, ?_⟩
    rw [decimal, Nat.ofDigitChars_append, List.append_nil, ← List.replicate_one, Nat.ofDigitChars_replicate_zero,
      Nat.mul_comm, List.length_replicate, List.length_nil, Nat.cast_zero, sub_zero]
    exact Decimal.units_mul_pow _ 1 exponent
  | cons c fraction =>
    rw [List.isEmpty_cons, if_neg Bool.false_ne_true, readDecimal?_append hd (by simp) ht, he]
    exact ⟨_, rfl, rfl⟩

end Figures

/-! ## The layouts -/

/-- The decimal of digits whose first one stands for a multiple of 10^`exponent`. -/
def leading (digits : List Char) (exponent : Int) : Decimal :=
  ⟨Nat.ofDigitChars 10 digits 0, exponent - (digits.length - 1 : Nat)⟩

theorem leading_toDigits (d : Decimal) : leading (Nat.toDigits 10 d.coefficient) d.order = d := by
  rw [leading, Decimal.order, Nat.ofDigitChars_ten_toDigits, add_sub_cancel_right]

theorem splitOnce?_append {c : Char} {before : List Char} (h : c ∉ before) (after : List Char) :
    splitOnce? c (before ++ c :: after) = some (before, after) := by
  have hbefore : ∀ d ∈ before, (d != c) = true := fun d hd => bne_iff_ne.2 fun heq => h (heq ▸ hd)
  rw [splitOnce?, List.takeWhile_append_of_pos hbefore, List.dropWhile_append_of_pos hbefore,
    List.takeWhile_cons_of_neg (by simp), List.dropWhile_cons_of_neg (by simp), List.append_nil]

theorem Layout.scientific_of_split {l : Layout} {digits before after : List Char} {exponent : Int}
    (h : splitOnce? 'e' (exponential digits exponent) = some (before, after)) :
    l.scientific digits exponent = withFraction before ++ l.mark :: after := by
  rw [scientific, h]

section

variable {digits : List Char} (hd : ∀ c ∈ digits, c.isDigit = true)
include hd

theorem not_mem_mantissa : 'e' ∉ mantissa digits := by
  have he : 'e' ∉ digits := not_mem_of_digits hd rfl
  match digits, he with
  | [], he | [_], he => exact he
  | a :: b :: rest, he => simpa [mantissa] using he

theorem withFraction_mantissa : withFraction (mantissa digits) = pointed (digits.take 1) (digits.drop 1) := by
  match digits, hd with
  | [], _ => rfl
  | [a], hd => exact if_neg (not_mem_of_digits hd rfl)
  | a :: b :: rest, _ => exact if_pos (List.mem_cons_of_mem a List.mem_cons_self)

/-- The mark of the exponent is always there. -/
theorem splitOnce?_exponential (exponent : Int) :
    splitOnce? 'e' (exponential digits exponent) = some (mantissa digits, integerText exponent) :=
  splitOnce?_append (not_mem_mantissa hd) (integerText exponent)

theorem Layout.scientific_eq (l : Layout) (exponent : Int) : l.scientific digits exponent =
    pointed (digits.take 1) (digits.drop 1) ++ l.mark :: integerText exponent := by
  rw [scientific_of_split (splitOnce?_exponential hd exponent), withFraction_mantissa hd]

end

namespace Layout

theorem isDigit_of_mem_zeros {k : Nat} : ∀ c ∈ List.replicate k '0', c.isDigit = true := by
  intro c hc
  rw [List.eq_of_mem_replicate hc]
  decide

section

variable {digits : List Char} (hd : ∀ c ∈ digits, c.isDigit = true) (hne : digits ≠ []) {exponent : Int}
include hd hne

/-- The first digit stands behind the point, after zeros. -/
theorem exists_full_of_neg (h : exponent < 0) : ∃ f : Figures, full digits exponent = f.text ∧
    f.decimal 0 = leading digits exponent := by
  have hpos : 0 < digits.length := List.length_pos_iff.2 hne
  have hzeros (k : Nat) : ['0'] ++ (List.replicate k '0' ++ digits) = List.replicate (1 + k) '0' ++ digits := by
    rw [← List.replicate_one, ← List.append_assoc, List.replicate_append_replicate]
  refine ⟨⟨['0'], List.replicate (-exponent - 1).toNat '0' ++ digits, by simp, ?_⟩, ?_, ?_⟩
  · rw [hzeros]
    exact fun c hc => (List.mem_append.1 hc).elim (isDigit_of_mem_zeros c) (hd c)
  · rw [full, if_pos h]
    rfl
  · dsimp only [Figures.decimal, leading]
    rw [hzeros, Nat.ofDigitChars_append, Nat.ofDigitChars_replicate_zero, Nat.mul_zero, List.length_append,
      List.length_replicate]
    congr 1
    omega

/-- The first digit stands before the point, and so do zeros for digits that are missing up to it. -/
theorem exists_full_of_nonneg (h : ¬ exponent < 0) : ∃ f : Figures, full digits exponent = f.text ∧
    (f.decimal 0).units = (leading digits exponent).units := by
  have hpos : 0 < digits.length := List.length_pos_iff.2 hne
  have hwhole : digits.take (exponent.toNat + 1) ++ List.replicate (exponent.toNat + 1 - digits.length) '0' ≠ [] := by
    have : digits.take (exponent.toNat + 1) ≠ [] := by simp [hne]
    simp [this]
  refine ⟨⟨_, digits.drop (exponent.toNat + 1), hwhole, ?_⟩, ?_, ?_⟩
  · intro c hc
    rcases List.mem_append.1 hc with hc | hc
    · exact (List.mem_append.1 hc).elim (fun hc => hd c (List.mem_of_mem_take hc)) (isDigit_of_mem_zeros c)
    · exact hd c (List.mem_of_mem_drop hc)
  · rw [full, if_neg h]
    rfl
  · dsimp only [Figures.decimal, leading]
    rw [List.length_drop]
    rcases Nat.le_total (exponent.toNat + 1) digits.length with hle | hge
    · -- no digit is missing
      rw [Nat.sub_eq_zero_of_le hle, List.replicate_zero, List.append_nil, List.take_append_drop]
      congr 2
      omega
    · -- there is nothing behind the point
      rw [List.take_of_length_le hge, List.drop_eq_nil_of_le hge, List.append_nil, Nat.ofDigitChars_append,
        Nat.ofDigitChars_replicate_zero, Nat.mul_comm]
      refine Eq.trans ?_ (Decimal.units_mul_pow _ (exponent.toNat + 1 - digits.length) _)
      congr 2
      omega

theorem exists_full (exponent : Int) : ∃ f : Figures, full digits exponent = f.text ∧
    (f.decimal 0).units = (leading digits exponent).units := by
  by_cases h : exponent < 0
  · obtain ⟨f, htext, hdecimal⟩ := exists_full_of_neg hd hne h
    exact ⟨f, htext, by rw [hdecimal]⟩
  · exact exists_full_of_nonneg hd hne h

theorem exists_scientific (l : Layout) (exponent : Int) : ∃ f : Figures,
    l.scientific digits exponent = f.text ++ l.mark :: integerText exponent ∧
      f.decimal exponent = leading digits exponent := by
  have hwhole : digits.take 1 ≠ [] := by simp [hne]
  refine ⟨⟨digits.take 1, digits.drop 1, hwhole, ?_⟩, scientific_eq hd l exponent, ?_⟩
  · rwa [List.take_append_drop]
  · dsimp only [Figures.decimal, leading]
    rw [List.take_append_drop, List.length_drop]

end

/-- From the least to the greatest order a decimal is laid out without an exponent. -/
theorem exists_write_full {l : Layout} {d : Decimal} (h : l.least ≤ d.order ∧ d.order ≤ l.greatest) :
    ∃ f : Figures, l.write d = f.text ∧ (f.decimal 0).units = d.units := by
  obtain ⟨f, htext, hunits⟩ := exists_full isDigit_of_mem_toDigits Nat.toDigits_ne_nil d.order
  rw [leading_toDigits] at hunits
  refine ⟨f, ?_, hunits⟩
  rw [← htext]
  exact if_pos h

theorem exists_write_scientific {l : Layout} {d : Decimal} (h : ¬ (l.least ≤ d.order ∧ d.order ≤ l.greatest)) :
    ∃ f : Figures, l.write d = f.text ++ l.mark :: integerText d.order ∧ f.decimal d.order = d := by
  obtain ⟨f, htext, hdecimal⟩ := exists_scientific isDigit_of_mem_toDigits Nat.toDigits_ne_nil l d.order
  rw [leading_toDigits] at hdecimal
  refine ⟨f, ?_, hdecimal⟩
  rw [← htext]
  exact if_neg h

theorem exists_cons_write (l : Layout) (d : Decimal) : ∃ c rest, l.write d = c :: rest ∧ c.isDigit = true := by
  by_cases h : l.least ≤ d.order ∧ d.order ≤ l.greatest
  · obtain ⟨f, htext, -⟩ := exists_write_full h
    obtain ⟨c, rest, hcons, hc⟩ := f.exists_cons []
    rw [List.append_nil] at hcons
    exact ⟨c, rest, htext.trans hcons, hc⟩
  · obtain ⟨f, htext, -⟩ := exists_write_scientific h
    obtain ⟨c, rest, hcons, hc⟩ := f.exists_cons (l.mark :: integerText d.order)
    exact ⟨c, rest, htext.trans hcons, hc⟩

/-- **What is laid out reads as much as it was.** -/
theorem exists_readDecimal?_write {l : Layout} (hmark : l.mark = 'e' ∨ l.mark = 'E') (d : Decimal) :
    ∃ r, readDecimal? (l.write d) = some r ∧ r.units = d.units := by
  by_cases h : l.least ≤ d.order ∧ d.order ≤ l.greatest
  · obtain ⟨f, htext, hunits⟩ := exists_write_full h
    obtain ⟨r, hread, hr⟩ := @Figures.exists_readDecimal? f [] nofun 0 rfl
    rw [List.append_nil] at hread
    exact ⟨r, htext ▸ hread, hr.trans hunits⟩
  · obtain ⟨f, htext, hdecimal⟩ := exists_write_scientific h
    have hend : ∀ c ∈ (l.mark :: integerText d.order).head?, c.isDigit = false := by
      intro c hc
      cases hc
      rcases hmark with hmark | hmark <;> rw [hmark] <;> decide
    obtain ⟨r, hread, hr⟩ := f.exists_readDecimal? hend (readExponent?_integerText hmark d.order)
    exact ⟨r, htext ▸ hread, hr.trans (congrArg _ hdecimal)⟩

end Layout
end Number
end Calculator
