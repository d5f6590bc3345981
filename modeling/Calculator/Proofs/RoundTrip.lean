import Calculator.Proofs.Meaning
import Calculator.Proofs.NumberText
import Calculator.Proofs.Pattern
import Calculator.Proofs.ShortestDecimal
/-!
# Proofs.RoundTrip — a number that is written reads back as it was

The text of a double reads as the double, down to the sign of a zero (`read_write`).  From a thousandth up to ten
million, and for the zeros, it is also one number of an expression, so that evaluating it gives the double back
(`evaluate_write`).
-/
namespace Calculator

/-! ## Without white space -/

theorem Character.not_isWhiteSpace {c : Char} (h : 0x20 < c.toNat) (h' : c.toNat < 0x85) :
    isWhiteSpace c = false := by
  unfold isWhiteSpace
  rw [Bool.eq_false_iff, ne_eq, Ranges.contains_iff whiteSpaceRanges_ascending]
  rintro ⟨range, hr, hc⟩
  simp only [whiteSpaceRanges, List.mem_cons, List.not_mem_nil, or_false] at hr
  rcases hr with rfl | rfl | rfl | rfl | rfl | rfl | rfl | rfl | rfl | rfl <;> omega

theorem Lexeme.not_isWhiteSpace_of_continues {c : Char} (h : number.continues c = true) :
    Character.isWhiteSpace c = false := by
  rw [continues, Bool.or_eq_true, beq_iff_eq] at h
  rcases h with h | rfl
  · have hc : 48 ≤ c.toNat ∧ c.toNat ≤ 57 := Char.isDigit_iff_toNat.1 h
    exact Character.not_isWhiteSpace (by omega) (by omega)
  · decide

def Unspaced (text : List Char) : Prop := ∀ c ∈ text, Character.isWhiteSpace c = false

instance (text : List Char) : Decidable (Unspaced text) := List.decidableBAll _ text

theorem Unspaced.cons {c : Char} {text : List Char} (hc : Character.isWhiteSpace c = false) (h : Unspaced text) :
    Unspaced (c :: text) :=
  List.forall_mem_cons.2 ⟨hc, h⟩

theorem Unspaced.append {text text' : List Char} (h : Unspaced text) (h' : Unspaced text') : Unspaced (text ++ text') :=
  fun c hc => (List.mem_append.1 hc).elim (h c) (h' c)

theorem Unspaced.reverse {text : List Char} (h : Unspaced text) : Unspaced text.reverse :=
  fun c hc => h c (List.mem_reverse.1 hc)

theorem Unspaced.dropWhile_eq {text : List Char} (h : Unspaced text) :
    text.dropWhile Character.isWhiteSpace = text := by
  refine List.dropWhile_eq_self_iff.2 fun hl => ?_
  rw [h _ (List.getElem_mem hl)]
  exact Bool.false_ne_true

theorem Unspaced.withoutWhiteSpace_eq {text : String} (h : Unspaced text.toList) : withoutWhiteSpace text = text := by
  have hfilter : (text.toList.filter fun c => !Character.isWhiteSpace c) = text.toList := by
    refine List.filter_eq_self.2 fun c hc => ?_
    rw [h c hc]
    rfl
  rw [withoutWhiteSpace, hfilter, String.ofList_toList]

namespace Number

theorem trim_eq {text : List Char} (h : Unspaced text) : trim text = text := by
  rw [trim, h.dropWhile_eq, h.reverse.dropWhile_eq, List.reverse_reverse]

theorem unspaced_integerText (n : Int) : Unspaced (integerText n) := by
  have hdigits : Unspaced (Nat.toDigits 10 n.natAbs) := by
    intro c hc
    exact Lexeme.not_isWhiteSpace_of_continues (by rw [Lexeme.continues, isDigit_of_mem_toDigits c hc]; rfl)
  unfold integerText
  split
  · exact hdigits.cons (by decide)
  · exact hdigits

theorem Figures.unspaced (f : Figures) : Unspaced f.text := fun _ hc =>
  Lexeme.not_isWhiteSpace_of_continues (f.continues hc)

theorem unspaced_layout (d : Decimal) : Unspaced (layout.write d) := by
  by_cases h : layout.least ≤ d.order ∧ d.order ≤ layout.greatest
  · obtain ⟨f, htext, -⟩ := Layout.exists_write_full h
    rw [htext]
    exact f.unspaced
  · obtain ⟨f, htext, -⟩ := Layout.exists_write_scientific h
    rw [htext]
    exact f.unspaced.append ((unspaced_integerText d.order).cons (by decide))

theorem unspaced_writePlace (place : Nat) : Unspaced (writePlace place) := by
  unfold writePlace
  split_ifs
  · decide
  · decide
  · exact unspaced_layout _

/-! ## Reading back -/

theorem splitSign_writePlace (place : Nat) : splitSign (writePlace place) = (false, writePlace place) := by
  unfold writePlace
  split_ifs
  · rfl
  · rfl
  · obtain ⟨c, rest, htext, hc⟩ := layout.exists_cons_write (Decimal.ofPlace place)
    rw [htext]
    exact splitSign_of_digit fun d hd => by cases hd; exact hc

/-- What the text of a place reads as, before the sign is set. -/
theorem exists_magnitude {place : Nat} (h : place ≤ Binary64.infinityPlace) : ∃ m,
    (readWord? (writePlace place) <|> (readDecimal? (writePlace place)).map Magnitude.decimal) = some m ∧
      ∀ negative, Numeral.toFloat ⟨negative, m⟩ = Binary64.ofPlace negative place := by
  by_cases hinf : place = Binary64.infinityPlace
  · subst hinf
    refine ⟨.infinity, ?_, fun negative => rfl⟩
    rw [writePlace, if_pos rfl]
    decide
  by_cases hzero : place = 0
  · subst hzero
    exact ⟨.decimal ⟨0, -1⟩, by decide, fun negative => rfl⟩
  have hpos : 0 < place := Nat.pos_of_ne_zero hzero
  obtain ⟨c, rest, hcons, hc⟩ := layout.exists_cons_write (Decimal.ofPlace place)
  obtain ⟨d, hread, hunits⟩ := Layout.exists_readDecimal?_write (l := layout) (.inr rfl) (Decimal.ofPlace place)
  have hplace : d.nearestPlace = place :=
    Decimal.nearestPlace_of_units_eq hpos (Nat.lt_of_le_of_ne h hinf) hunits
  refine ⟨.decimal d, ?_, fun negative => ?_⟩
  · rw [writePlace, if_neg hinf, if_neg hzero, hread, hcons, readWord?_of_digit hc]
    rfl
  · exact congrArg (Binary64.ofPlace negative) hplace

theorem ofText?_writePlace (negative : Bool) {place : Nat} (h : place ≤ Binary64.infinityPlace) :
    ∃ numeral, Numeral.ofText? (if negative then '-' :: writePlace place else writePlace place) = some numeral ∧
      numeral.toFloat = Binary64.ofPlace negative place := by
  obtain ⟨m, hm, hfloat⟩ := exists_magnitude h
  refine ⟨⟨negative, m⟩, ?_, hfloat negative⟩
  have hsplit : splitSign (if negative then '-' :: writePlace place else writePlace place) =
      (negative, writePlace place) := by
    cases negative with
    | false =>
      rw [if_neg Bool.false_ne_true]
      exact splitSign_writePlace place
    | true =>
      rw [if_pos rfl, splitSign]
  simp only [Numeral.ofText?, hsplit, hm, Option.map_some]

theorem toList_write {x : Float} (h : Binary64.place x ≤ Binary64.infinityPlace) : (write x).toList =
    if Binary64.isNegative x then '-' :: writePlace (Binary64.place x) else writePlace (Binary64.place x) := by
  unfold write
  rw [if_neg (Nat.not_lt.2 h)]
  exact String.toList_ofList

theorem unspaced_write (x : Float) : Unspaced (write x).toList := by
  rcases Nat.lt_or_ge Binary64.infinityPlace (Binary64.place x) with hnan | hle
  · rw [write, if_pos hnan]
    decide
  · rw [toList_write hle]
    split
    · exact (unspaced_writePlace _).cons (by decide)
    · exact unspaced_writePlace _

/-- **A double that is written reads back as it was**, the sign of a zero with it. -/
theorem read_write (x : Float) : read (write x) = .ok x := by
  rcases Nat.lt_or_ge Binary64.infinityPlace (Binary64.place x) with hnan | hle
  · rw [write, if_pos hnan, Binary64.eq_nan x hnan]
    rfl
  · obtain ⟨numeral, hread, hfloat⟩ := ofText?_writePlace (Binary64.isNegative x) hle
    rw [Binary64.ofPlace_place x hle] at hfloat
    rw [read, trim_eq (unspaced_write x), toList_write hle, hread]
    exact congrArg _ hfloat

/-! ## As an expression -/

theorem units_tenMillionPlace : Binary64.units Binary64.tenMillionPlace = 10 ^ 7 * Decimal.unitsPerOne := by
  decide +kernel

/-- From a thousandth up to ten million a double is laid out without an exponent. -/
theorem order_ofPlace {place : Nat} (h : Binary64.thousandthPlace ≤ place) (h' : place < Binary64.tenMillionPlace) :
    layout.least ≤ (Decimal.ofPlace place).order ∧ (Decimal.ofPlace place).order ≤ layout.greatest := by
  have hpos : 0 < place := Nat.lt_of_lt_of_le (by decide) h
  constructor
  · rcases Nat.eq_or_lt_of_le h with rfl | hlt
    · -- the neighbour below is less than a thousandth, so this decimal is not told by its bounds
      have hone : Decimal.ofPlace Binary64.thousandthPlace = ⟨1, -3⟩ := by decide +kernel
      rw [hone]
      decide
    · have hle : Decimal.unitsPerOne ≤ 10 ^ 3 * Binary64.units Binary64.thousandthPlace := by decide +kernel
      have hle : (Decimal.unitsPerOne : ℚ) ≤ 10 ^ 3 * Binary64.units Binary64.thousandthPlace := by exact_mod_cast hle
      refine Decimal.le_order (le_trans ?_ (Decimal.lt_units_ofPlace hlt).le)
      exact (inv_mul_le_iff₀ (by norm_num)).2 hle
  · have heq : (Binary64.units Binary64.tenMillionPlace : ℚ) = 10 ^ 7 * Decimal.unitsPerOne := by
      exact_mod_cast units_tenMillionPlace
    have hlt := Decimal.units_ofPlace_lt hpos h'
    rw [heq] at hlt
    exact Int.le_of_lt_add_one (Decimal.order_lt (Decimal.coefficient_ofPlace_ne_zero hpos) hlt)

theorem exists_figures {place : Nat}
    (h : place = 0 ∨ Binary64.thousandthPlace ≤ place ∧ place < Binary64.tenMillionPlace) :
    ∃ f : Figures, writePlace place = f.text := by
  rcases h with rfl | ⟨hle, hlt⟩
  · have hdigits : ∀ c ∈ ['0'] ++ [], c.isDigit = true := List.all_eq_true.1 (by decide)
    exact ⟨⟨['0'], [], by decide, hdigits⟩, rfl⟩
  · have hinf : place ≠ Binary64.infinityPlace := (Nat.lt_trans hlt (by decide)).ne
    have hzero : place ≠ 0 := (Nat.lt_of_lt_of_le (by decide) hle).ne'
    obtain ⟨f, htext, -⟩ := Layout.exists_write_full (order_ofPlace hle hlt)
    exact ⟨f, by rw [writePlace, if_neg hinf, if_neg hzero, htext]⟩

/-- Which doubles are written without an exponent: the zeros, and from a thousandth up to ten million. -/
def Plain (x : Float) : Prop := (x == 0) = true ∨ (1e-3 : Float) ≤ x.abs ∧ x.abs < 1e7

instance (x : Float) : Decidable (Plain x) :=
  inferInstanceAs (Decidable ((x == 0) = true ∨ (1e-3 : Float) ≤ x.abs ∧ x.abs < 1e7))

theorem plain_iff (x : Float) : Plain x ↔ Binary64.place x = 0 ∨
    Binary64.thousandthPlace ≤ Binary64.place x ∧ Binary64.place x < Binary64.tenMillionPlace := by
  have hsize : Binary64.tenMillionPlace ≤ Binary64.infinityPlace := by decide
  rw [Plain, Binary64.beq_zero_iff, Binary64.thousandth_eq, Binary64.tenMillion_eq, Binary64.le_abs_iff (by decide),
    Binary64.abs_lt_iff hsize]
  omega

theorem place_le_of_plain {x : Float} (h : Plain x) : Binary64.place x ≤ Binary64.infinityPlace := by
  have hsize : Binary64.tenMillionPlace ≤ Binary64.infinityPlace := by decide
  rcases (plain_iff x).1 h with h | h <;> omega

theorem covers_write {x : Float} (h : Plain x) : Lexeme.number.covers (write x).toList = true := by
  obtain ⟨f, htext⟩ := exists_figures ((plain_iff x).1 h)
  rw [toList_write (place_le_of_plain h), htext]
  split
  · exact Lexeme.covers_iff.2 ⟨'-', f.text, rfl, by decide, fun c hc => f.continues hc⟩
  · obtain ⟨c, rest, hcons, hc⟩ := f.exists_cons []
    rw [List.append_nil] at hcons
    refine Lexeme.covers_iff.2 ⟨c, rest, hcons, by rw [Lexeme.starts, hc]; rfl, fun d hd => f.continues ?_⟩
    rw [hcons]
    exact List.mem_cons_of_mem c hd

end Number

section

variable {m : Type → Type} [Monad m] (ask : String → m Reply) (limit : Nat) (s : Store)

/-- A text that is one number is evaluated as it is read. -/
theorem evaluateSource_of_number {text : String} {x : Float} (h : Lexeme.number.covers text.toList = true)
    (hread : Number.read text = .ok x) : evaluateSource ask limit s text = pure ⟨.ok x, s, [], []⟩ := by
  have hdialogue := @Tree.dialogueOf_text limit (.term (.factor (.number text.toList h))) (Nat.zero_le _)
  rw [Tree.text, Tree.text, Tree.text, String.ofList_toList, Tree.dialogue, Tree.dialogue, Tree.dialogue,
    String.ofList_toList, hread] at hdialogue
  rw [evaluateSource, hdialogue]
  rfl

theorem evaluate_write {x : Float} (h : Number.Plain x) :
    evaluate ask limit s (Number.write x) = pure ⟨.ok x, s, [], []⟩ := by
  rw [evaluate, (Number.unspaced_write x).withoutWhiteSpace_eq]
  exact evaluateSource_of_number ask limit s (Number.covers_write h) (Number.read_write x)

end

namespace Number

/-- **What a result prints can be typed back without loss**: the text of a bit pattern reads as the same pattern, or as
a NaN when it is one; and written without an exponent, it is an expression of that value which asks for nothing. -/
theorem toBits_read_write (bits : UInt64) :
    (∃ y, read (write (.ofBits bits)) = .ok y ∧
      if (Float.ofBits bits).isNaN then y.isNaN = true else y.toBits = bits) ∧
    (Plain (.ofBits bits) →
      ∀ {m : Type → Type} [Monad m] (ask : String → m Reply) (limit : Nat) (s : Store),
        ∃ y, evaluate ask limit s (write (.ofBits bits)) = pure ⟨.ok y, s, [], []⟩ ∧ y.toBits = bits) := by
  refine ⟨⟨_, read_write _, ?_⟩, fun h m _ ask limit s => ⟨_, evaluate_write ask limit s h, ?_⟩⟩
  · split
    · assumption
    · rename_i hnan
      exact Binary64.toBits_ofBits bits (Bool.eq_false_iff.2 hnan)
  · refine Binary64.toBits_ofBits bits (Bool.eq_false_iff.2 fun hnan => ?_)
    exact absurd ((Binary64.isNaN_iff _).1 hnan) (Nat.not_lt.2 (place_le_of_plain h))

theorem toBits_read_write_three_tenths :
    let bits : UInt64 := 0x3FD3333333333334
    let ask : String → StateM Nat Reply := fun _ => modifyGet fun asked => (.ok "1", asked + 1)
    (write (.ofBits bits) = "0.30000000000000004" ∧ (Float.ofBits bits).isNaN = false ∧ Plain (.ofBits bits)) ∧
      (∃ y, read (write (.ofBits bits)) = .ok y ∧
        if (Float.ofBits bits).isNaN then y.isNaN = true else y.toBits = bits) ∧
      ∃ y, (evaluate ask 0 .empty (write (.ofBits bits))).run 7 = (⟨.ok y, .empty, [], []⟩, 7) ∧ y.toBits = bits := by
  intro bits ask
  have hplain : Plain (.ofBits bits) := by decide +kernel
  obtain ⟨hread, hevaluate⟩ := toBits_read_write bits
  obtain ⟨y, hy, hbits⟩ := hevaluate hplain ask 0 .empty
  exact ⟨⟨by decide +kernel, by decide +kernel, hplain⟩, hread, y, by rw [hy]; rfl, hbits⟩

/-- A zero with its sign, the least and the greatest double, and the next one after ten million. -/
example : [0x8000000000000000, 1, 0x7FEFFFFFFFFFFFFF, 0x416312D000000001].map (fun bits => write (Float.ofBits bits)) =
    ["-0.0", "5.0E-324", "1.7976931348623157E308", "1.0000000000000002E7"] := by decide +kernel

end Number
end Calculator
