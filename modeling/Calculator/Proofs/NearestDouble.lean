import Calculator.Proofs.Pattern
import Calculator.Proofs.Rounding
/-!
# Proofs.NearestDouble — a decimal is rounded to the nearest double

A finite double is worth a rational number (`Binary64.value`).  No finite double is nearer to a decimal than the one
that the decimal is rounded to, and of two that are equally near the even one is taken; from halfway between the
greatest finite double and the next power of two on, decimals are rounded to infinity (`Decimal.roundsTo`).
-/
namespace Calculator
namespace Binary64

/-! ## What doubles are worth -/

def withSign (negative : Bool) (v : ℚ) : ℚ := if negative then -v else v

/-- What a finite double is worth. -/
def value (x : Float) : ℚ :=
  match x.toModel.unpack with
  | .finite .negative digits exponent _ => -(digits * 2 ^ exponent)
  | .finite .positive digits exponent _ => digits * 2 ^ exponent
  | _ => 0

/-- Halfway between the greatest finite double and the power of two that comes next. -/
def overflow : ℚ := 2 ^ 1024 - 2 ^ 970

/-- Rounding to nearest, ties to even. -/
structure RoundsTo (v : ℚ) (x : Float) : Prop where
  isFinite : |v| < overflow → x.isFinite = true
  isInf : overflow ≤ |v| → x.isInf = true
  nearest : |v| < overflow → ∀ y : Float, y.isFinite = true → |v - value x| ≤ |v - value y|
  even : |v| < overflow → ∀ y : Float, y.isFinite = true → value y ≠ value x →
    |v - value y| = |v - value x| → x.toBits.toNat % 2 = 0

theorem isFinite_iff (x : Float) : x.isFinite = true ↔ place x < infinityPlace := by
  rcases Nat.lt_or_ge infinityPlace (place x) with hnan | hle
  · rw [eq_nan x hnan]
    decide
  · have hfinite : x.isFinite = (unpacked (isNegative x) (place x)).isFinite := by
      rw [← unpack_toModel x hle]
      rfl
    rw [hfinite, unpacked]
    split_ifs with hinf hpos
    · exact ⟨fun h => (by cases h), fun h => by omega⟩
    · exact ⟨fun _ => by omega, fun _ => rfl⟩
    · exact ⟨fun _ => by omega, fun _ => rfl⟩

theorem isNaN_of_isInf {x : Float} (h : x.isInf = true) : x.isNaN = false := by
  change x.toModel.unpack.isInf = true at h
  show x.toModel.unpack.isNaN = false
  generalize x.toModel.unpack = fields at h ⊢
  cases fields <;> first | rfl | cases h

theorem RoundsTo.isNaN_eq_false {v : ℚ} {x : Float} (h : RoundsTo v x) : x.isNaN = false := by
  rcases lt_or_ge |v| overflow with hlt | hge
  · have hplace := (isFinite_iff x).1 (h.isFinite hlt)
    exact Bool.eq_false_iff.2 fun hnan => absurd ((isNaN_iff x).1 hnan) (not_lt.2 hplace.le)
  · exact isNaN_of_isInf (h.isInf hge)

theorem isInf_infinity (negative : Bool) : (infinity negative).isInf = true := by
  cases negative <;> decide

theorem toNat_toBits_ofPlace (negative : Bool) {place : Nat} (h : place ≤ infinityPlace) :
    (ofPlace negative place).toBits.toNat = signed negative place := by
  have hsize : infinityPlace < signBit := by decide
  have hlt : signed negative place < 2 * signBit := by
    rw [signed]
    split <;> omega
  rw [toBits_ofPlace negative h, UInt64.toNat_ofNat_of_lt' hlt]

theorem signed_mod_two (negative : Bool) (place : Nat) : signed negative place % 2 = place % 2 := by
  have heven : signBit % 2 = 0 := by decide
  rw [signed]
  split <;> omega

theorem isNegative_ofPlace (negative : Bool) {place : Nat} (h : place ≤ infinityPlace) :
    isNegative (ofPlace negative place) = negative := by
  have hsize : infinityPlace < signBit := by decide
  rw [isNegative, toNat_toBits_ofPlace negative h, signed]
  cases negative
  · exact decide_eq_false (by simp; omega)
  · exact decide_eq_true (by simp)

theorem place_ofPlace (negative : Bool) {place : Nat} (h : place ≤ infinityPlace) :
    Binary64.place (ofPlace negative place) = place := by
  have hlt : place < signBit := Nat.lt_of_le_of_lt h (by decide)
  rw [Binary64.place, toNat_toBits_ofPlace negative h, signed]
  cases negative
  · exact Nat.mod_eq_of_lt hlt
  · rw [if_pos rfl, Nat.add_mod_left, Nat.mod_eq_of_lt hlt]

theorem units_eq (place : Nat) : units place = mantissa place * 2 ^ (max (place / perBinade) 1 - 1) := by
  rw [units, mantissa]
  split
  · rename_i hlt
    rw [Nat.div_eq_of_lt hlt, Nat.zero_max, Nat.sub_self, Nat.pow_zero, Nat.mul_one]
  · rename_i hge
    rw [Nat.max_eq_left (Nat.div_pos (Nat.not_lt.1 hge) (by decide))]
    rfl

theorem mul_zpow_sub {one k : Nat} (h : one = 2 ^ k) (m n : Nat) :
    (m : ℚ) * 2 ^ (n - k : Int) = (m * 2 ^ n : Nat) / one := by
  rw [h, Nat.cast_mul, Nat.cast_pow, Nat.cast_pow, Nat.cast_ofNat, zpow_sub₀ (by norm_num), zpow_natCast,
    zpow_natCast, mul_div_assoc]

theorem digits_eq (place : Nat) :
    (mantissa place : ℚ) * 2 ^ exponent place = units place / Decimal.unitsPerOne := by
  have hexponent : exponent place = (max (place / perBinade) 1 - 1 : Nat) - (1074 : Nat) := by
    rw [exponent]
    omega
  rw [units_eq, hexponent, mul_zpow_sub (by decide +kernel : Decimal.unitsPerOne = 2 ^ 1074)]

theorem value_ofPlace (negative : Bool) {place : Nat} (h : place < infinityPlace) :
    value (ofPlace negative place) = withSign negative (units place / Decimal.unitsPerOne) := by
  rw [value, unpack_ofPlace negative h.le, unpacked, if_neg h.ne, ← digits_eq]
  by_cases hpos : 0 < place
  · rw [dif_pos hpos]
    cases negative <;> rfl
  · obtain rfl : place = 0 := Nat.eq_zero_of_not_pos hpos
    rw [dif_neg hpos, show mantissa 0 = 0 from rfl, Nat.cast_zero, zero_mul, withSign, neg_zero, ite_self]

/-! ## Midpoints and distances -/

theorem abs_sub_le_abs_sub_iff {v a b : ℚ} : |v - a| ≤ |v - b| ↔ 0 ≤ (a - b) * (2 * v - (b + a)) := by
  rw [← sq_le_sq, ← sub_nonneg]
  ring_nf

theorem abs_sub_lt_abs_sub_iff {v a b : ℚ} : |v - a| < |v - b| ↔ 0 < (a - b) * (2 * v - (b + a)) := by
  rw [← sq_lt_sq, ← sub_pos]
  ring_nf

/-- **Between the midpoints to its neighbours, no other double is nearer**, and none is as near to an odd one. -/
theorem Nearest.nearer {v : ℚ} {place other : Nat} (h : Nearest v place) (hne : other ≠ place) :
    |v - units place| ≤ |v - units other| ∧ (place % 2 = 1 → |v - units place| < |v - units other|) := by
  obtain ⟨hlower, hupper, hodd⟩ := h
  rw [Nat.cast_add] at hlower hupper hodd
  rw [Nat.cast_add] at hodd
  rw [abs_sub_le_abs_sub_iff, abs_sub_lt_abs_sub_iff]
  rcases Nat.lt_or_gt_of_ne hne with hlt | hgt
  · have hdistance : (0 : ℚ) < units place - units other :=
      sub_pos.2 (Nat.cast_lt.2 (units_strictMono hlt))
    have hle : (units other : ℚ) ≤ units (place - 1) :=
      Nat.cast_le.2 (units_strictMono.monotone (Nat.le_sub_one_of_lt hlt))
    exact ⟨mul_nonneg hdistance.le (by linarith only [hle, hlower]),
      fun hp => mul_pos hdistance (by linarith only [hle, (hodd hp).1])⟩
  · have hdistance : (units place - units other : ℚ) < 0 :=
      sub_neg.2 (Nat.cast_lt.2 (units_strictMono hgt))
    have hle : (units (place + 1) : ℚ) ≤ units other := Nat.cast_le.2 (units_strictMono.monotone hgt)
    exact ⟨mul_nonneg_of_nonpos_of_nonpos hdistance.le (by linarith only [hle, hupper]),
      fun hp => mul_pos_of_neg_of_neg hdistance (by linarith only [hle, (hodd hp).2])⟩

theorem exists_nearest {v : ℚ} (hv : 0 ≤ v) : ∃ place, Nearest v place := by
  classical
  let Reaches (place : Nat) : Prop := 2 * v < (units place + units (place + 1) : Nat) ∨
    2 * v = (units place + units (place + 1) : Nat) ∧ place % 2 = 0
  have hreaches : ∃ place, Reaches place := by
    obtain ⟨n, hn⟩ := exists_nat_gt (2 * v)
    refine ⟨n, .inl (hn.trans_le ?_)⟩
    exact_mod_cast (units_strictMono.le_apply (x := n)).trans (Nat.le_add_right _ _)
  have hupper := Nat.find_spec hreaches
  have hleast := @Nat.find_min _ _ hreaches
  generalize Nat.find hreaches = place at hupper hleast
  have hle : 2 * v ≤ (units place + units (place + 1) : Nat) := hupper.elim le_of_lt fun h => h.1.le
  rcases Nat.eq_zero_or_pos place with rfl | hpos
  · exact ⟨0, by rw [show units (0 - 1) + units 0 = 0 from rfl, Nat.cast_zero]; positivity, hle, nofun⟩
  · obtain ⟨below, rfl⟩ := Nat.exists_eq_add_of_le' hpos
    have hbelow := hleast (Nat.lt_succ_self below)
    rw [not_or, not_lt, not_and] at hbelow
    refine ⟨below + 1, hbelow.1, hle, fun hodd => ⟨?_, hupper.resolve_right fun h => by omega⟩⟩
    exact lt_of_le_of_ne hbelow.1 fun heq => hbelow.2 heq.symm (by omega)

/-! ## Signs -/

theorem abs_withSign (negative : Bool) (v : ℚ) : |withSign negative v| = |v| := by
  cases negative
  · rfl
  · exact abs_neg v

theorem withSign_div (negative : Bool) (v w : ℚ) : withSign negative (v / w) = withSign negative v / w := by
  cases negative
  · rfl
  · exact (neg_div w v).symm

theorem withSign_sub (negative : Bool) (v w : ℚ) :
    withSign negative v - withSign negative w = withSign negative (v - w) := by
  cases negative
  · rfl
  · exact neg_sub_neg v w |>.trans (neg_sub v w).symm

theorem abs_sub_withSign_of_ne {negative negative' : Bool} (hne : negative' ≠ negative) {v w : ℚ} (hv : 0 ≤ v)
    (hw : 0 ≤ w) : |withSign negative v - withSign negative' w| = v + w := by
  rw [Bool.eq_not.2 hne]
  cases negative
  · show |v - -w| = v + w
    rw [sub_neg_eq_add, abs_of_nonneg (add_nonneg hv hw)]
  · show |-v - w| = v + w
    rw [← neg_add', abs_neg, abs_of_nonneg (add_nonneg hv hw)]

/-- With any sign, no other double is nearer either. -/
theorem Nearest.nearer_withSign {v : ℚ} {place : Nat} (h : Nearest v place) (hv : 0 ≤ v) (negative negative' : Bool)
    (other : Nat) :
    |withSign negative v - withSign negative (units place)| ≤
        |withSign negative v - withSign negative' (units other)| ∧
      (place % 2 = 1 → withSign negative' (units other) ≠ withSign negative (units place) →
        |withSign negative v - withSign negative (units place)| <
          |withSign negative v - withSign negative' (units other)|) := by
  have hother : (0 : ℚ) ≤ units other := Nat.cast_nonneg _
  have hle : |v - units place| ≤ |v - units other| := by
    by_cases hne : other = place
    · rw [hne]
    · exact (h.nearer hne).1
  rw [withSign_sub, abs_withSign]
  by_cases hsign : negative' = negative
  · subst hsign
    rw [withSign_sub, abs_withSign]
    refine ⟨hle, fun hodd hne => (h.nearer ?_).2 hodd⟩
    rintro rfl
    exact hne rfl
  · rw [abs_sub_withSign_of_ne hsign hv hother]
    have hsum : |v - units other| ≤ v + units other :=
      abs_sub_le_iff.2 ⟨by linarith only [hother], by linarith only [hv]⟩
    refine ⟨hle.trans hsum, fun hodd _ => ?_⟩
    by_cases hne : other = place
    · subst hne
      -- an odd place is not the place of zero, so the value is positive
      have hplace : (0 : ℚ) < units other := Nat.cast_pos.2 (units_strictMono (by omega : 0 < other))
      have hlower := (h.2.2 hodd).1
      rw [Nat.cast_add] at hlower
      have hbelow : (0 : ℚ) ≤ units (other - 1) := Nat.cast_nonneg _
      exact abs_sub_lt_iff.2 ⟨by linarith only [hplace], by linarith only [hlower, hbelow, hplace]⟩
    · exact ((h.nearer hne).2 hodd).trans_le hsum

theorem overflow_eq :
    2 * (overflow * Decimal.unitsPerOne) = (units (infinityPlace - 1) + units infinityPlace : Nat) := by
  obtain ⟨hbelow, hunits, -⟩ := units_first 2045
  have hspacing : 2 ^ 2045 = 2 * (2 ^ 970 * Decimal.unitsPerOne) := by decide +kernel
  have hgreatest : (2 : ℚ) ^ (54 + 970) = 2 ^ 54 * 2 ^ 970 := pow_add 2 54 970
  have hsum : 2 * perBinade - 1 + 2 * perBinade = 2 ^ 54 - 1 := by decide
  have hcast (n one : Nat) : 2 * ((2 ^ 54 * (n : ℚ) - n) * one) = ((2 ^ 54 - 1) * (2 * (n * one)) : Nat) := by
    push_cast
    ring
  rw [show infinityPlace = (2045 + 2) * perBinade from rfl, hbelow, hunits, ← Nat.add_mul, hsum, hspacing, ← hcast,
    overflow, hgreatest, Nat.cast_pow, Nat.cast_ofNat]

theorem Nearest.lt_infinityPlace_iff {v : ℚ} {place : Nat} (h : Nearest v place) :
    v < overflow * Decimal.unitsPerOne ↔ place < infinityPlace := by
  have hmiddle := overflow_eq
  obtain ⟨hlower, hupper, hodd⟩ := h
  constructor
  · intro hv
    by_contra hge
    have h₁ := units_strictMono.monotone (not_lt.1 hge)
    have h₂ := units_strictMono.monotone (Nat.sub_le_sub_right (not_lt.1 hge) 1)
    have hle : ((units (infinityPlace - 1) + units infinityPlace : Nat) : ℚ) ≤
        (units (place - 1) + units place : Nat) := Nat.cast_le.2 (Nat.add_le_add h₂ h₁)
    linarith only [hlower, hmiddle, hv, hle]
  · intro hlt
    rcases Nat.lt_or_ge (place + 1) infinityPlace with hlast | hlast
    · have hless : ((units place + units (place + 1) : Nat) : ℚ) <
          (units (infinityPlace - 1) + units infinityPlace : Nat) :=
        Nat.cast_lt.2 (Nat.add_lt_add_of_le_of_lt (units_strictMono.monotone (Nat.le_sub_one_of_lt hlt))
          (units_strictMono hlast))
      linarith only [hupper, hmiddle, hless]
    · -- the last finite place is odd, so its upper midpoint is not its own
      obtain rfl : place = infinityPlace - 1 := by omega
      have hless := (hodd (by decide)).2
      rw [show infinityPlace - 1 + 1 = infinityPlace from rfl] at hless
      linarith only [hmiddle, hless]

theorem eq_ofPlace {x : Float} (h : x.isFinite = true) :
    ∃ negative place, place < infinityPlace ∧ x = ofPlace negative place :=
  ⟨isNegative x, place x, (isFinite_iff x).1 h, (ofPlace_place x ((isFinite_iff x).1 h).le).symm⟩

end Binary64

namespace Decimal
open Binary64 (RoundsTo withSign)

/-- The number that a decimal is. -/
def value (d : Decimal) : ℚ := d.coefficient * 10 ^ d.exponent

theorem value_eq (d : Decimal) : d.value = d.units / unitsPerOne :=
  (mul_div_cancel_right₀ _ unitsPerOne_pos.ne').symm

theorem units_nonneg (d : Decimal) : 0 ≤ d.units := mul_nonneg (by positivity) unitsPerOne_pos.le

theorem nearestPlace_le (d : Decimal) : d.nearestPlace ≤ Binary64.infinityPlace := by
  obtain ⟨place, h⟩ := Binary64.exists_nearest d.units_nonneg
  rw [nearestPlace_eq h]
  exact Nat.min_le_right _ _

/-- **A decimal is rounded to the double that is nearest to it**, with its sign. -/
theorem roundsTo (negative : Bool) (d : Decimal) :
    RoundsTo (withSign negative d.value) (Binary64.ofPlace negative d.nearestPlace) := by
  have hnonneg := d.units_nonneg
  obtain ⟨place, h⟩ := Binary64.exists_nearest hnonneg
  have hover : |withSign negative d.value| < Binary64.overflow ↔ place < Binary64.infinityPlace := by
    rw [Binary64.abs_withSign, value_eq, abs_of_nonneg (div_nonneg hnonneg unitsPerOne_pos.le),
      div_lt_iff₀ unitsPerOne_pos, h.lt_infinityPlace_iff]
  rw [nearestPlace_eq h]
  have hdistance (negative' : Bool) {other : Nat} (ho : other < Binary64.infinityPlace) :
      |withSign negative d.value - Binary64.value (Binary64.ofPlace negative' other)| =
        |withSign negative d.units - withSign negative' (Binary64.units other)| / unitsPerOne := by
    rw [Binary64.value_ofPlace negative' ho, value_eq, Binary64.withSign_div, Binary64.withSign_div, ← sub_div,
      abs_div, abs_of_pos unitsPerOne_pos]
  refine ⟨fun hv => ?_, fun hv => ?_, fun hv y hy => ?_, fun hv y hy hne heq => ?_⟩
  · rw [Nat.min_eq_left (hover.1 hv).le, Binary64.isFinite_iff, Binary64.place_ofPlace negative (hover.1 hv).le]
    exact hover.1 hv
  · rw [Nat.min_eq_right (not_lt.1 fun hlt => not_lt.2 hv (hover.2 hlt))]
    exact Binary64.isInf_infinity negative
  · obtain ⟨negative', other, ho, rfl⟩ := Binary64.eq_ofPlace hy
    rw [Nat.min_eq_left (hover.1 hv).le, hdistance negative (hover.1 hv), hdistance negative' ho]
    exact div_le_div_of_nonneg_right (h.nearer_withSign hnonneg negative negative' other).1 unitsPerOne_pos.le
  · obtain ⟨negative', other, ho, rfl⟩ := Binary64.eq_ofPlace hy
    rw [Nat.min_eq_left (hover.1 hv).le] at hne heq ⊢
    rw [hdistance negative (hover.1 hv), hdistance negative' ho] at heq
    rw [Binary64.value_ofPlace negative' ho, Binary64.value_ofPlace negative (hover.1 hv), Binary64.withSign_div,
      Binary64.withSign_div] at hne
    rw [Binary64.toNat_toBits_ofPlace negative (hover.1 hv).le, Binary64.signed_mod_two]
    by_contra hodd
    have hlt := (h.nearer_withSign hnonneg negative negative' other).2 (by omega) fun hne' => hne (by rw [hne'])
    exact (div_lt_div_of_pos_right hlt unitsPerOne_pos).ne' heq

end Decimal
end Calculator
