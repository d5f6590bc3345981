import Calculator.Proofs.NearestDouble
import Calculator.Proofs.RoundTrip
/-!
# Proofs.NumberShape — the shape of the text of a double

The text of a finite double has its sign, digits on either side of one point and, below a thousandth and from ten
million on, an exponent, and no zero in it could be left out (`Number.shape_write`).  Where the double lies among
all doubles decides that there is an exponent, and its shortest decimal says which: the two agree at both bounds
(`plain_iff_order`), and a double is a whole number just when the decimal needs no digit behind the point.
-/
namespace Calculator
namespace Decimal

/-! ## Whole numbers -/

/-- A whole number of at most 53 bits times a power of two is a double. -/
theorem exists_units_eq {n : Nat} (h : n ≤ 2 * Binary64.perBinade) : ∀ k, ∃ place, Binary64.units place = n * 2 ^ k
  | 0 => ⟨0 * Binary64.perBinade + n, Binary64.units_add h (.inl rfl)⟩
  | k + 1 => by
    rcases Nat.lt_or_ge n Binary64.perBinade with hlt | hge
    · obtain ⟨place, hplace⟩ := exists_units_eq (n := 2 * n) (by omega) k
      exact ⟨place, by rw [hplace, Nat.pow_succ']; ring⟩
    · exact ⟨(k + 1) * Binary64.perBinade + n, Binary64.units_add h (.inr hge)⟩

/-- A decimal that is exactly a double is the decimal of no other double. -/
theorem eq_of_units_eq {place other : Nat} (hpos : 0 < place) (h : (ofPlace place).units = Binary64.units other) :
    place = other := by
  by_contra hne
  have hle := ((nearest_ofPlace hpos).nearer (Ne.symm hne)).1
  rw [h, sub_self, abs_zero] at hle
  have heq := sub_eq_zero.1 (abs_eq_zero.1 (le_antisymm hle (abs_nonneg _)))
  exact hne (Binary64.units_strictMono.injective (Nat.cast_injective heq)).symm

theorem value_window {place n : Nat} (h : Binary64.units place = n * unitsPerOne) :
    (Window.ofPlace place).value = n * Nat.pow 10 1075 := by
  have hone : 2 * unitsPerOne * Window.halfUnit = Nat.pow 10 1075 := by decide +kernel
  rw [Window.ofPlace_eq, ← hone, h]
  ring

/-- **Up to ten million a double is a whole number just when its decimal is one.** -/
theorem whole_iff {place : Nat} (hpos : 0 < place) (h : place < Binary64.tenMillionPlace) :
    (∃ n, Binary64.units place = n * unitsPerOne) ↔ 0 ≤ (ofPlace place).exponent := by
  constructor
  · rintro ⟨n, hn⟩
    exact Window.le_exponent_shortest (Window.holds_value hpos) (Window.not_holds_zero hpos) (value_window hn)
  · intro hexponent
    obtain ⟨e, he⟩ := Int.eq_ofNat_of_zero_le hexponent
    have hunits : (ofPlace place).units = ((ofPlace place).coefficient * 10 ^ e * unitsPerOne : Nat) := by
      rw [units, he, zpow_natCast]
      push_cast
      rfl
    have hlt : (ofPlace place).coefficient * 10 ^ e < 10 ^ 7 := by
      have hlt := units_ofPlace_lt hpos h
      rw [hunits, Number.units_tenMillionPlace, Nat.cast_lt] at hlt
      exact Nat.lt_of_mul_lt_mul_right hlt
    have hsize : 10 ^ 7 ≤ 2 * Binary64.perBinade := by decide
    obtain ⟨other, hother⟩ := exists_units_eq (hlt.le.trans hsize) 1074
    rw [← (by decide +kernel : unitsPerOne = 2 ^ 1074)] at hother
    rw [← hother] at hunits
    exact ⟨_, (congrArg Binary64.units (eq_of_units_eq hpos hunits)).trans hother⟩

end Decimal

namespace Number

/-! ## Orders -/

/-- Below a thousandth the first digit that is not a zero is behind three zeros, the point apart. -/
theorem order_ofPlace_lt {place : Nat} (hpos : 0 < place) (h : place < Binary64.thousandthPlace) :
    (Decimal.ofPlace place).order < -3 := by
  refine Decimal.order_lt (Decimal.coefficient_ofPlace_ne_zero hpos) ?_
  obtain ⟨-, hupper, -⟩ := Decimal.nearest_ofPlace hpos
  have hlast : (Binary64.units (Binary64.thousandthPlace - 1) + Binary64.units Binary64.thousandthPlace) * 10 ^ 3 <
      2 * Decimal.unitsPerOne := by decide +kernel
  have hle : Binary64.units place + Binary64.units (place + 1) ≤
      Binary64.units (Binary64.thousandthPlace - 1) + Binary64.units Binary64.thousandthPlace :=
    Nat.add_le_add (Binary64.units_strictMono.monotone (Nat.le_sub_one_of_lt h))
      (Binary64.units_strictMono.monotone h)
  have hlt : (2 * (Decimal.ofPlace place).units * 10 ^ 3 : ℚ) < 2 * Decimal.unitsPerOne := by
    refine lt_of_le_of_lt (mul_le_mul_of_nonneg_right (hupper.trans (Nat.cast_le.2 hle)) (by positivity)) ?_
    exact_mod_cast hlast
  have hthousandth : (10 : ℚ) ^ (-3 : Int) = 1 / 10 ^ 3 := by norm_num
  rw [hthousandth, one_div_mul_eq_div, lt_div_iff₀ (by positivity)]
  linarith only [hlt]

theorem le_order_ofPlace {place : Nat} (h : Binary64.tenMillionPlace ≤ place) :
    7 ≤ (Decimal.ofPlace place).order := by
  rcases Nat.eq_or_lt_of_le h with rfl | hlt
  · -- the neighbour below is less than ten million, so this decimal is not told by its bounds
    have hone : Decimal.ofPlace Binary64.tenMillionPlace = ⟨1, 7⟩ := by decide +kernel
    rw [hone]
    decide
  · have heq : (Binary64.units Binary64.tenMillionPlace : ℚ) = 10 ^ (7 : Int) * Decimal.unitsPerOne := by
      exact_mod_cast units_tenMillionPlace
    exact Decimal.le_order (heq ▸ (Decimal.lt_units_ofPlace hlt).le)

/-! ## Digits -/

/-- Digits without a zero in front that could be left out. -/
def IsCount (digits : List Char) : Prop :=
  digits ≠ [] ∧ (∀ c ∈ digits, c.isDigit = true) ∧ (digits.head? = some '0' → digits = ['0'])

/-- Digits without a zero at the end that could be left out. -/
def IsFraction (digits : List Char) : Prop :=
  digits ≠ [] ∧ (∀ c ∈ digits, c.isDigit = true) ∧ (digits.getLast? = some '0' → digits = ['0'])

theorem isCount_zero : IsCount ['0'] := ⟨by decide, List.all_eq_true.1 (by decide), fun _ => rfl⟩

theorem isFraction_zero : IsFraction ['0'] := ⟨by decide, List.all_eq_true.1 (by decide), fun _ => rfl⟩

theorem getLast?_toDigits (n : Nat) : (Nat.toDigits 10 n).getLast? = some (n % 10).digitChar := by
  rcases Nat.lt_or_ge n 10 with hlt | hge
  · rw [Nat.toDigits_of_lt_base hlt, Nat.mod_eq_of_lt hlt]
    rfl
  · rw [Nat.toDigits_of_base_le (by decide) hge, List.getLast?_concat]

theorem head?_toDigits_ne {n : Nat} (h : 0 < n) : (Nat.toDigits 10 n).head? ≠ some '0' := by
  rcases Nat.lt_or_ge n 10 with hlt | hge
  · rw [Nat.toDigits_of_lt_base hlt]
    exact fun hzero => h.ne' (Nat.digitChar_eq_zero.1 (Option.some.inj hzero))
  · rw [Nat.toDigits_of_base_le (by decide) hge, List.head?_append_of_ne_nil _ Nat.toDigits_ne_nil]
    exact head?_toDigits_ne (Nat.div_pos hge (by decide))

theorem isCount_toDigits {n : Nat} (h : 0 < n) : IsCount (Nat.toDigits 10 n) :=
  ⟨Nat.toDigits_ne_nil, isDigit_of_mem_toDigits, fun hzero => absurd hzero (head?_toDigits_ne h)⟩

/-- A zero is filled in just where there would be no digit behind the point. -/
theorem exists_filled (whole : List Char) {fraction : List Char} (hd : ∀ c ∈ fraction, c.isDigit = true)
    (hlast : fraction.getLast? ≠ some '0') : ∃ filled, pointed whole fraction = whole ++ '.' :: filled ∧
      IsFraction filled ∧ (filled = ['0'] ↔ fraction = []) := by
  refine ⟨_, rfl, ?_⟩
  cases fraction with
  | nil => exact ⟨isFraction_zero, fun _ => rfl, fun _ => rfl⟩
  | cons c rest =>
    rw [List.isEmpty_cons, if_neg Bool.false_ne_true]
    refine ⟨⟨List.cons_ne_nil _ _, hd, fun hzero => absurd hzero hlast⟩, fun hzero => ?_, nofun⟩
    rw [hzero] at hlast
    exact absurd rfl hlast

/-! ## Layouts -/

namespace Layout

theorem getLast?_drop_ne {digits : List Char} (hlast : digits.getLast? ≠ some '0') (n : Nat) :
    (digits.drop n).getLast? ≠ some '0' := by
  rw [List.getLast?_drop]
  split
  · nofun
  · exact hlast

section

variable {digits : List Char} (hd : ∀ c ∈ digits, c.isDigit = true) (hne : digits ≠ [])
  (hfirst : digits.head? ≠ some '0') (hlast : digits.getLast? ≠ some '0')
include hd hne hfirst hlast

/-- Written in full, digits have a zero filled in behind the point just when all of them stand before it. -/
theorem exists_full_shape (exponent : Int) : ∃ whole fraction, full digits exponent = whole ++ '.' :: fraction ∧
    IsCount whole ∧ IsFraction fraction ∧ (fraction = ['0'] ↔ (digits.length : Int) ≤ exponent + 1) := by
  have hpos : 0 < digits.length := List.length_pos_iff.2 hne
  unfold full
  split
  · rename_i hneg
    have hbehind : ∀ c ∈ List.replicate (-exponent - 1).toNat '0' ++ digits, c.isDigit = true :=
      fun c hc => (List.mem_append.1 hc).elim (isDigit_of_mem_zeros c) (hd c)
    have hend : (List.replicate (-exponent - 1).toNat '0' ++ digits).getLast? ≠ some '0' := by
      rwa [List.getLast?_append_of_ne_nil _ hne]
    obtain ⟨fraction, htext, hfraction, hfilled⟩ := exists_filled ['0'] hbehind hend
    refine ⟨_, fraction, htext, isCount_zero, hfraction, hfilled.trans ⟨fun hnil => ?_, fun hle => by omega⟩⟩
    exact absurd (List.append_eq_nil_iff.1 hnil).2 hne
  · rename_i hnonneg
    obtain ⟨fraction, htext, hfraction, hfilled⟩ :=
      exists_filled (digits.take (exponent.toNat + 1) ++ List.replicate (exponent.toNat + 1 - digits.length) '0')
        (fun c hc => hd c (List.mem_of_mem_drop hc)) (getLast?_drop_ne hlast (exponent.toNat + 1))
    have hhead : (digits.take (exponent.toNat + 1)).head? = digits.head? := by
      rw [List.head?_take, if_neg (Nat.succ_ne_zero _)]
    have htake : digits.take (exponent.toNat + 1) ≠ [] := by simp [hne]
    refine ⟨_, fraction, htext, ⟨by simp [hne], fun c hc => ?_, fun hzero => ?_⟩, hfraction, hfilled.trans ?_⟩
    · exact (List.mem_append.1 hc).elim (fun hc => hd c (List.mem_of_mem_take hc)) (isDigit_of_mem_zeros c)
    · rw [List.head?_append_of_ne_nil _ htake, hhead] at hzero
      exact absurd hzero hfirst
    · rw [List.drop_eq_nil_iff]
      omega

theorem exists_scientific_shape (l : Layout) (exponent : Int) : ∃ first fraction,
    l.scientific digits exponent = first :: '.' :: (fraction ++ l.mark :: integerText exponent) ∧
      first.isDigit = true ∧ first ≠ '0' ∧ IsFraction fraction := by
  obtain ⟨first, rest, rfl⟩ := List.exists_cons_of_ne_nil hne
  obtain ⟨fraction, htext, hfraction, -⟩ := exists_filled [first]
    (fun c hc => hd c (List.mem_cons_of_mem first hc)) (getLast?_drop_ne hlast 1)
  refine ⟨first, fraction, ?_, hd first List.mem_cons_self, fun hzero => hfirst (congrArg some hzero), hfraction⟩
  rw [scientific_eq hd]
  show pointed [first] rest ++ l.mark :: integerText exponent = _
  rw [show pointed [first] rest = _ from htext]
  rfl

end

end Layout

/-! ## The shape of a text -/

/-- The texts that a finite double may have, the sign apart. -/
inductive Shape (x : Float) : List Char → Prop where
  | plain {whole fraction : List Char} (h : Plain x) (hw : IsCount whole) (hf : IsFraction fraction)
    (hwhole : fraction = ['0'] ↔ ∃ n : Int, Binary64.value x = n) : Shape x (whole ++ '.' :: fraction)
  | large {first : Char} {fraction exponent : List Char} (h : (1e7 : Float) ≤ x.abs) (hd : first.isDigit = true)
    (hne : first ≠ '0') (hf : IsFraction fraction) (he : IsCount exponent)
    (hle : 7 ≤ Nat.ofDigitChars 10 exponent 0) : Shape x (first :: '.' :: (fraction ++ 'E' :: exponent))
  | small {first : Char} {fraction exponent : List Char} (h : ¬ (x == 0) = true ∧ x.abs < 1e-3)
    (hd : first.isDigit = true) (hne : first ≠ '0') (hf : IsFraction fraction) (he : IsCount exponent)
    (hle : 4 ≤ Nat.ofDigitChars 10 exponent 0) : Shape x (first :: '.' :: (fraction ++ 'E' :: '-' :: exponent))

theorem value_eq_intCast_iff {x : Float} (h : Binary64.place x < Binary64.infinityPlace) :
    (∃ n : Int, Binary64.value x = n) ↔ ∃ n, Binary64.units (Binary64.place x) = n * Decimal.unitsPerOne := by
  have hone := Decimal.unitsPerOne_pos
  have habs : |Binary64.value x| = Binary64.units (Binary64.place x) / Decimal.unitsPerOne := by
    rw [← Binary64.ofPlace_place x h.le, Binary64.value_ofPlace _ h, Binary64.abs_withSign,
      Binary64.place_ofPlace _ h.le, abs_of_nonneg (div_nonneg (Nat.cast_nonneg _) hone.le)]
  constructor
  · rintro ⟨n, hn⟩
    refine ⟨n.natAbs, ?_⟩
    rw [hn, eq_div_iff hone.ne', ← Int.cast_abs, Int.abs_eq_natAbs] at habs
    exact_mod_cast habs.symm
  · rintro ⟨n, hn⟩
    rw [hn, Nat.cast_mul, mul_div_cancel_right₀ _ hone.ne'] at habs
    rcases (abs_eq (Nat.cast_nonneg n)).1 habs with heq | heq
    · exact ⟨n, by rw [heq]; rfl⟩
    · exact ⟨-n, by rw [heq, Int.cast_neg]; rfl⟩

section

variable {place : Nat} (hpos : 0 < place) (hlt : place < Binary64.infinityPlace)
include hpos

theorem toDigits_ofPlace_ends : (Nat.toDigits 10 (Decimal.ofPlace place).coefficient).head? ≠ some '0' ∧
    (Nat.toDigits 10 (Decimal.ofPlace place).coefficient).getLast? ≠ some '0' := by
  refine ⟨head?_toDigits_ne (Nat.pos_of_ne_zero (Decimal.coefficient_ofPlace_ne_zero hpos)), fun hzero => ?_⟩
  rw [getLast?_toDigits] at hzero
  exact Decimal.coefficient_ofPlace_mod_ten hpos (Nat.digitChar_eq_zero.1 (Option.some.inj hzero))

include hlt

theorem writePlace_eq : writePlace place = layout.write (Decimal.ofPlace place) := by
  rw [writePlace, if_neg hlt.ne, if_neg hpos.ne']

theorem exists_writePlace_full (h : layout.least ≤ (Decimal.ofPlace place).order ∧
    (Decimal.ofPlace place).order ≤ layout.greatest) :
    ∃ whole fraction, writePlace place = whole ++ '.' :: fraction ∧ IsCount whole ∧ IsFraction fraction ∧
      (fraction = ['0'] ↔ 0 ≤ (Decimal.ofPlace place).exponent) := by
  obtain ⟨hfirst, hlast⟩ := toDigits_ofPlace_ends hpos
  obtain ⟨whole, fraction, htext, hw, hf, hwhole⟩ := Layout.exists_full_shape isDigit_of_mem_toDigits
    Nat.toDigits_ne_nil hfirst hlast (Decimal.ofPlace place).order
  refine ⟨whole, fraction, ?_, hw, hf, hwhole.trans ?_⟩
  · rw [writePlace_eq hpos hlt, ← htext]
    exact if_pos h
  · have hlength := @Nat.length_toDigits_pos 10 (Decimal.ofPlace place).coefficient
    rw [Decimal.order]
    omega

theorem exists_writePlace_scientific (h : ¬ (layout.least ≤ (Decimal.ofPlace place).order ∧
    (Decimal.ofPlace place).order ≤ layout.greatest)) :
    ∃ first fraction, writePlace place = first :: '.' ::
        (fraction ++ 'E' :: integerText (Decimal.ofPlace place).order) ∧
      first.isDigit = true ∧ first ≠ '0' ∧ IsFraction fraction := by
  obtain ⟨hfirst, hlast⟩ := toDigits_ofPlace_ends hpos
  obtain ⟨first, fraction, htext, hshape⟩ := Layout.exists_scientific_shape isDigit_of_mem_toDigits
    Nat.toDigits_ne_nil hfirst hlast layout (Decimal.ofPlace place).order
  refine ⟨first, fraction, ?_, hshape⟩
  rw [writePlace_eq hpos hlt]
  exact (if_neg h).trans htext

end

/-- The layout of a decimal branches where its double does. -/
theorem plain_iff_order {x : Float} (hpos : 0 < Binary64.place x) : Plain x ↔
    layout.least ≤ (Decimal.ofPlace (Binary64.place x)).order ∧
      (Decimal.ofPlace (Binary64.place x)).order ≤ layout.greatest := by
  rw [plain_iff]
  constructor
  · rintro (hzero | ⟨hle, hlt⟩)
    · exact absurd hzero hpos.ne'
    · exact order_ofPlace hle hlt
  · rintro ⟨hleast, hgreatest⟩
    refine .inr ⟨?_, ?_⟩
    · exact not_lt.1 fun hsmall => not_le.2 (order_ofPlace_lt hpos hsmall) hleast
    · exact not_le.1 fun hlarge => not_le.2 (Int.lt_of_lt_of_le (by decide) (le_order_ofPlace hlarge)) hgreatest

theorem shape_of_plain {x : Float} (hplain : Plain x) : Shape x (writePlace (Binary64.place x)) := by
  have hsize : Binary64.tenMillionPlace < Binary64.infinityPlace := by decide
  rcases (plain_iff x).1 hplain with hzero | ⟨hle, hbound⟩
  · have hwhole := value_eq_intCast_iff (x := x) (by omega)
    rw [hzero] at hwhole ⊢
    exact .plain hplain isCount_zero isFraction_zero ⟨fun _ => hwhole.2 ⟨0, (Nat.zero_mul _).symm⟩, fun _ => rfl⟩
  · have hpos : 0 < Binary64.place x := Nat.lt_of_lt_of_le (by decide) hle
    have hlt : Binary64.place x < Binary64.infinityPlace := hbound.trans hsize
    obtain ⟨whole, fraction, htext, hw, hf, hzero⟩ := exists_writePlace_full hpos hlt ((plain_iff_order hpos).1 hplain)
    have hwhole := (value_eq_intCast_iff hlt).trans (Decimal.whole_iff hpos hbound)
    rw [htext]
    exact .plain hplain hw hf (hzero.trans hwhole.symm)

theorem shape_of_small {x : Float} (hpos : 0 < Binary64.place x) (h : Binary64.place x < Binary64.thousandthPlace) :
    Shape x (writePlace (Binary64.place x)) := by
  have hsize : Binary64.thousandthPlace ≤ Binary64.infinityPlace := by decide
  have horder := order_ofPlace_lt hpos h
  obtain ⟨first, fraction, htext, hd, hne, hf⟩ := exists_writePlace_scientific hpos (h.trans_le hsize)
    fun hfull => absurd hfull.1 (not_le.2 horder)
  rw [htext, integerText, if_pos (by omega)]
  refine .small ⟨mt (Binary64.beq_zero_iff x).1 hpos.ne', ?_⟩ hd hne hf (isCount_toDigits (by omega)) ?_
  · rw [Binary64.thousandth_eq]
    exact (Binary64.abs_lt_iff hsize x).2 h
  · rw [Nat.ofDigitChars_ten_toDigits]
    omega

theorem shape_of_large {x : Float} (h : Binary64.tenMillionPlace ≤ Binary64.place x)
    (hlt : Binary64.place x < Binary64.infinityPlace) : Shape x (writePlace (Binary64.place x)) := by
  have horder := le_order_ofPlace h
  obtain ⟨first, fraction, htext, hd, hne, hf⟩ := exists_writePlace_scientific (Nat.lt_of_lt_of_le (by decide) h) hlt
    fun hfull => absurd horder (not_le.2 (Int.lt_add_one_of_le hfull.2))
  rw [htext, integerText, if_neg (by omega)]
  refine .large ?_ hd hne hf (isCount_toDigits (by omega)) ?_
  · rw [Binary64.tenMillion_eq]
    exact (Binary64.le_abs_iff (by decide) x).2 ⟨h, hlt.le⟩
  · rw [Nat.ofDigitChars_ten_toDigits]
    omega

/-- The digits and the exponent of a double as they are before the cut. -/
def uncut (x : Float) : List Char :=
  exponential (Nat.toDigits 10 (Decimal.ofPlace (Binary64.place x)).coefficient)
    (Decimal.ofPlace (Binary64.place x)).order

/-- **A text with an exponent comes of a cut at the `e`**, which is always there. -/
theorem exists_split_uncut {x : Float} (h : x.isFinite = true) (hplain : ¬ Plain x) : ∃ before after,
    splitOnce? 'e' (uncut x) = some (before, after) ∧
      writePlace (Binary64.place x) = withFraction before ++ 'E' :: after := by
  have hpos := Nat.pos_of_ne_zero fun hzero => hplain ((plain_iff x).2 (.inl hzero))
  have horder := mt (plain_iff_order hpos).2 hplain
  have hsplit := splitOnce?_exponential (@isDigit_of_mem_toDigits (Decimal.ofPlace (Binary64.place x)).coefficient)
    (Decimal.ofPlace (Binary64.place x)).order
  refine ⟨_, _, hsplit, ?_⟩
  rw [writePlace_eq hpos ((Binary64.isFinite_iff x).1 h)]
  exact (if_neg horder).trans (Layout.scientific_of_split hsplit)

theorem shape_writePlace {x : Float} (h : x.isFinite = true) : Shape x (writePlace (Binary64.place x)) := by
  rcases Nat.eq_zero_or_pos (Binary64.place x) with hzero | hpos
  · exact shape_of_plain ((plain_iff x).2 (.inl hzero))
  rcases Nat.lt_or_ge (Binary64.place x) Binary64.thousandthPlace with hsmall | hge
  · exact shape_of_small hpos hsmall
  rcases Nat.lt_or_ge (Binary64.place x) Binary64.tenMillionPlace with hlt | hlarge
  · exact shape_of_plain ((plain_iff x).2 (.inr ⟨hge, hlt⟩))
  · exact shape_of_large hlarge ((Binary64.isFinite_iff x).1 h)

namespace Shape

variable {x : Float} {text : List Char}

/-- Digits on either side of a point, and no point behind them. -/
theorem exists_figures (h : Shape x text) : ∃ whole fraction tail, text = whole ++ '.' :: (fraction ++ tail) ∧
    whole ≠ [] ∧ fraction ≠ [] ∧ (∀ c ∈ whole ++ fraction, c.isDigit = true) ∧ '.' ∉ tail := by
  have hpoint {digits : List Char} (hd : ∀ c ∈ digits, c.isDigit = true) : '.' ∉ digits := not_mem_of_digits hd rfl
  cases h with
  | @plain whole fraction _ hw hf _ =>
    exact ⟨whole, fraction, [], by rw [List.append_nil], hw.1, hf.1,
      fun c hc => (List.mem_append.1 hc).elim (hw.2.1 c) (hf.2.1 c), List.not_mem_nil⟩
  | @large first fraction exponent _ hd _ hf he _ =>
    exact ⟨[first], fraction, 'E' :: exponent, rfl, by simp, hf.1, List.forall_mem_cons.2 ⟨hd, hf.2.1⟩,
      by simp [hpoint he.2.1]⟩
  | @small first fraction exponent _ hd _ hf he _ =>
    exact ⟨[first], fraction, 'E' :: '-' :: exponent, rfl, by simp, hf.1, List.forall_mem_cons.2 ⟨hd, hf.2.1⟩,
      by simp [hpoint he.2.1]⟩

/-- The mark of the exponent is there just outside of the range that is written in full. -/
theorem mark_mem_iff (h : Shape x text) : 'E' ∈ text ↔ ¬ Plain x := by
  rw [plain_iff]
  cases h with
  | @plain whole fraction h hw hf _ =>
    have hmark : 'E' ∉ whole ++ '.' :: fraction := by
      simp [not_mem_of_digits hw.2.1, not_mem_of_digits hf.2.1]
    exact ⟨fun hc => absurd hc hmark, fun hplain => absurd ((plain_iff x).1 h) hplain⟩
  | large h =>
    rw [Binary64.tenMillion_eq] at h
    have hge := ((Binary64.le_abs_iff (by decide) x).1 h).1
    have hpos : 0 < Binary64.tenMillionPlace := by decide
    exact ⟨fun _ hplain => by omega, fun _ => by simp⟩
  | small h =>
    have hsize : Binary64.thousandthPlace ≤ Binary64.infinityPlace := by decide
    rw [Binary64.beq_zero_iff, Binary64.thousandth_eq, Binary64.abs_lt_iff hsize] at h
    exact ⟨fun _ hplain => by omega, fun _ => by simp⟩

theorem head?_ne (h : Shape x text) : text.head? ≠ some '-' := by
  obtain ⟨whole, fraction, tail, rfl, hw, -, hd, -⟩ := h.exists_figures
  rw [List.head?_append_of_ne_nil _ hw]
  exact fun hminus => absurd (hd '-' (List.mem_append_left _ (List.mem_of_mem_head? hminus))) (by decide)

theorem count_point (h : Shape x text) : text.count '.' = 1 := by
  obtain ⟨whole, fraction, tail, rfl, -, -, hd, htail⟩ := h.exists_figures
  have hpoint : '.' ∉ whole ++ fraction := not_mem_of_digits hd rfl
  rw [List.mem_append, not_or] at hpoint
  rw [List.count_append, List.count_cons_self, List.count_append, List.count_eq_zero.2 hpoint.1,
    List.count_eq_zero.2 hpoint.2, List.count_eq_zero.2 htail]

theorem exists_point (h : Shape x text) : ∃ before left right after,
    text = before ++ left :: '.' :: right :: after ∧ left.isDigit = true ∧ right.isDigit = true := by
  obtain ⟨whole, fraction, tail, rfl, hw, hf, hd, -⟩ := h.exists_figures
  obtain ⟨before, left, rfl⟩ := (List.eq_nil_or_concat whole).resolve_left hw
  obtain ⟨right, after, rfl⟩ := List.exists_cons_of_ne_nil hf
  exact ⟨before, left, right, after ++ tail, by simp, hd left (by simp), hd right (by simp)⟩

end Shape

/-- **The text of every finite double has a canonical shape**: a minus sign just when the sign bit is set, digits on
either side of its only point, and an exponent just outside of the range that is written in full.  There the cut at the
`e` is always found, so no text with an exponent is left as it is. -/
theorem shape_write {x : Float} (h : x.isFinite = true) : ∃ text, Shape x text ∧
    (write x).toList = (if Binary64.isNegative x then '-' :: text else text) ∧
    ((write x).toList.head? = some '-' ↔ Binary64.isNegative x = true) ∧
    (write x).toList.count '.' = 1 ∧
    (∃ before left right after, (write x).toList = before ++ left :: '.' :: right :: after ∧
      left.isDigit = true ∧ right.isDigit = true) ∧
    ('E' ∈ text ↔ ¬ Plain x) ∧
    (¬ Plain x → ∃ before after, splitOnce? 'e' (uncut x) = some (before, after) ∧
      text = withFraction before ++ 'E' :: after) := by
  have hshape := shape_writePlace h
  have htext := toList_write ((Binary64.isFinite_iff x).1 h).le
  refine ⟨_, hshape, htext, ?_⟩
  obtain ⟨before, left, right, after, hpoint, hleft, hright⟩ := hshape.exists_point
  have hexponent := And.intro hshape.mark_mem_iff (exists_split_uncut h)
  rw [htext]
  cases Binary64.isNegative x with
  | false =>
    rw [if_neg Bool.false_ne_true]
    exact ⟨⟨fun hminus => absurd hminus hshape.head?_ne, nofun⟩, hshape.count_point,
      ⟨before, left, right, after, hpoint, hleft, hright⟩, hexponent⟩
  | true =>
    rw [if_pos rfl]
    refine ⟨⟨fun _ => rfl, fun _ => rfl⟩, ?_, ⟨'-' :: before, left, right, after, ?_, hleft, hright⟩, hexponent⟩
    · rw [List.count_cons_of_ne (by decide), hshape.count_point]
    · rw [hpoint, List.cons_append]

/-- The last double below a thousandth, with a minus sign. -/
theorem shape_write_below_thousandth :
    let x := Float.ofBits 0xBF50624DD2F1A9FB
    (x.isFinite = true ∧ write x = "-9.999999999999998E-4" ∧ ¬ Plain x) ∧
      ∃ text, Shape x text ∧ (write x).toList = (if Binary64.isNegative x then '-' :: text else text) ∧
        ((write x).toList.head? = some '-' ↔ Binary64.isNegative x = true) ∧
        (write x).toList.count '.' = 1 ∧
        (∃ before left right after, (write x).toList = before ++ left :: '.' :: right :: after ∧
          left.isDigit = true ∧ right.isDigit = true) ∧
        ('E' ∈ text ↔ ¬ Plain x) ∧
        (¬ Plain x → ∃ before after, splitOnce? 'e' (uncut x) = some (before, after) ∧
          text = withFraction before ++ 'E' :: after) := by
  intro x
  have hfinite : x.isFinite = true := by decide +kernel
  exact ⟨⟨hfinite, by decide +kernel, by decide +kernel⟩, shape_write hfinite⟩

end Number
end Calculator
