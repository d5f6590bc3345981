import Calculator.Decimal.Shortest
import Calculator.Proofs.Rounding
/-!
# Proofs.ShortestDecimal — the decimal of a double reads back as the double

Whatever is picked on some grid is in the window of the double (`Window.holds_coarsest`), and what is in the window is
rounded to its place (`nearest_of_holds`).  No coarser grid has a point in the window (`Window.not_holds_of_coarser`),
so the decimal does not end in a zero (`coefficient_ofPlace_mod_ten`).
-/
namespace Calculator
namespace Decimal

namespace Window

theorem holds_of_pick? {w : Window} {step count : Nat} (h : w.pick? step = some count) :
    w.holds (count * step) = true := by
  cases hbelow : w.holds (w.value / step * step) <;> cases habove : w.holds ((w.value / step + 1) * step) <;>
    simp only [pick?, hbelow, habove] at h
  case false.false => cases h
  case false.true =>
    cases h
    exact habove
  case true.false =>
    cases h
    exact hbelow
  case true.true =>
    split at h <;> cases h
    · exact hbelow
    · exact habove

/-- **What the search ends with is in the window**, if the value itself is. -/
theorem holds_coarsest {w : Window} (h : w.holds w.value = true) :
    ∀ k, w.holds ((w.coarsest k).1 * Nat.pow 10 (w.coarsest k).2) = true
  | 0 => by simpa [coarsest] using h
  | k + 1 => by
    rw [coarsest]
    split
    · rename_i hpick
      exact holds_of_pick? hpick
    · exact holds_coarsest h k

theorem holds_iff (w : Window) (n : Nat) : w.holds n = true ↔
    w.lower ≤ n ∧ n ≤ w.upper ∧ (w.closed = false → w.lower < n ∧ n < w.upper) := by
  unfold holds
  cases w.closed <;> simp
  omega

/-- Half a unit of doubles, in units of windows. -/
def halfUnit : Nat := Nat.pow 5 1075

theorem halfUnit_pos : 0 < halfUnit := by decide +kernel

theorem ofPlace_eq (place : Nat) : ofPlace place =
    ⟨(Binary64.units (place - 1) + Binary64.units place) * halfUnit, 2 * Binary64.units place * halfUnit,
      (Binary64.units place + Binary64.units (place + 1)) * halfUnit, place % 2 = 0⟩ := by
  unfold ofPlace halfUnit
  rfl

theorem holds_value {place : Nat} (h : 0 < place) : (ofPlace place).holds (ofPlace place).value = true := by
  have hbelow := Binary64.units_strictMono (Nat.sub_lt h Nat.one_pos)
  have habove := Binary64.units_lt_succ place
  rw [ofPlace_eq, holds_iff]
  have hlower := Nat.mul_lt_mul_of_pos_right (by omega :
    Binary64.units (place - 1) + Binary64.units place < 2 * Binary64.units place) halfUnit_pos
  have hupper := Nat.mul_lt_mul_of_pos_right (by omega :
    2 * Binary64.units place < Binary64.units place + Binary64.units (place + 1)) halfUnit_pos
  exact ⟨hlower.le, hupper.le, fun _ => ⟨hlower, hupper⟩⟩

end Window

theorem two_mul_units {k : Nat} (h : 2 * unitsPerOne * Window.halfUnit = Nat.pow 10 k) (count grid : Nat) :
    2 * units ⟨count, grid - k⟩ * Window.halfUnit = (count * Nat.pow 10 grid : Nat) := by
  have h : ((2 * unitsPerOne * Window.halfUnit : Nat) : ℚ) = (Nat.pow 10 k : Nat) := congrArg _ h
  rw [Nat.cast_mul, Nat.cast_mul, cast_pow, Nat.cast_ofNat, Nat.cast_ofNat] at h
  have hne : (10 : ℚ) ^ k ≠ 0 := by positivity
  rw [Nat.cast_mul, cast_pow, Nat.cast_ofNat, units, zpow_sub₀ (by norm_num), zpow_natCast, zpow_natCast]
  calc 2 * (count * (10 ^ grid / 10 ^ k) * unitsPerOne : ℚ) * Window.halfUnit
      = count * 10 ^ grid * (2 * unitsPerOne * Window.halfUnit) / 10 ^ k := by ring
    _ = count * 10 ^ grid := by rw [h, mul_div_cancel_right₀ _ hne]

/-- **What is in the window of a place is rounded to it.** -/
theorem nearest_of_holds {place count grid : Nat}
    (h : (Window.ofPlace place).holds (count * Nat.pow 10 grid) = true) :
    Binary64.Nearest (units ⟨count, grid - 1075⟩) place := by
  have hunits := two_mul_units (k := 1075) (by decide +kernel) count grid
  rw [@Nat.cast_ofNat Int] at hunits
  have hpos : (0 : ℚ) < Window.halfUnit := Nat.cast_pos.2 Window.halfUnit_pos
  rw [Window.ofPlace_eq, Window.holds_iff] at h
  obtain ⟨hlower, hupper, hopen⟩ := h
  rw [← @Nat.cast_le ℚ, ← hunits, Nat.cast_mul] at hlower hupper
  refine ⟨le_of_mul_le_mul_right hlower hpos, le_of_mul_le_mul_right hupper hpos, fun hodd => ?_⟩
  obtain ⟨hlower, hupper⟩ := hopen (decide_eq_false (by omega))
  rw [← @Nat.cast_lt ℚ, ← hunits, Nat.cast_mul] at hlower hupper
  exact ⟨lt_of_mul_lt_mul_right hlower hpos.le, lt_of_mul_lt_mul_right hupper hpos.le⟩

theorem Window.shortest_eq (w : Window) : w.shortest =
    ⟨(w.coarsest (digitBound w.value)).1, (w.coarsest (digitBound w.value)).2 - 1075⟩ := rfl

/-- The decimal of a double is in its window. -/
theorem nearest_ofPlace {place : Nat} (h : 0 < place) : Binary64.Nearest (ofPlace place).units place := by
  rw [ofPlace, Window.shortest_eq]
  exact nearest_of_holds (Window.holds_coarsest (Window.holds_value h) _)

theorem lt_units_ofPlace {place least : Nat} (h : least < place) : Binary64.units least < (ofPlace place).units := by
  obtain ⟨hlower, -, -⟩ := nearest_ofPlace (Nat.zero_lt_of_lt h)
  have hle := Binary64.units_strictMono.monotone (Nat.le_sub_one_of_lt h)
  have hlt := Binary64.units_strictMono h
  have hsum : (2 * Binary64.units least : ℚ) < (Binary64.units (place - 1) + Binary64.units place : Nat) := by
    exact_mod_cast (by omega : 2 * Binary64.units least < Binary64.units (place - 1) + Binary64.units place)
  linarith only [hlower, hsum]

theorem units_ofPlace_lt {place bound : Nat} (hpos : 0 < place) (h : place < bound) :
    (ofPlace place).units < Binary64.units bound := by
  obtain ⟨-, hupper, -⟩ := nearest_ofPlace hpos
  have hle := Binary64.units_strictMono.monotone (Nat.succ_le_of_lt h)
  have hlt := Binary64.units_strictMono h
  rw [Nat.succ_eq_add_one] at hle
  have hsum : ((Binary64.units place + Binary64.units (place + 1) : Nat) : ℚ) < 2 * Binary64.units bound := by
    exact_mod_cast (by omega : Binary64.units place + Binary64.units (place + 1) < 2 * Binary64.units bound)
  linarith only [hupper, hsum]

theorem coefficient_ofPlace_ne_zero {place : Nat} (h : 0 < place) : (ofPlace place).coefficient ≠ 0 := by
  intro hzero
  have hpos := (Nat.cast_nonneg (Binary64.units 0)).trans_lt (lt_units_ofPlace h)
  rw [units, hzero, Nat.cast_zero, zero_mul, zero_mul] at hpos
  exact lt_irrefl _ hpos

/-- **Whatever is as great as the decimal of a double reads back as the double.** -/
theorem nearestPlace_of_units_eq {d : Decimal} {place : Nat} (hpos : 0 < place)
    (hplace : place < Binary64.infinityPlace) (h : d.units = (ofPlace place).units) : d.nearestPlace = place := by
  rw [nearestPlace_eq (h ▸ nearest_ofPlace hpos), Nat.min_eq_left hplace.le]

/-! ## No coarser grid -/

namespace Window

theorem holds_of_between {w : Window} {a b n : Nat} (ha : w.holds a = true) (hb : w.holds b = true) (hle : a ≤ n)
    (hge : n ≤ b) : w.holds n = true := by
  obtain ⟨ha, -, ha'⟩ := (holds_iff w a).1 ha
  obtain ⟨-, hb, hb'⟩ := (holds_iff w b).1 hb
  exact (holds_iff w n).2 ⟨ha.trans hle, hge.trans hb, fun hopen =>
    ⟨(ha' hopen).1.trans_le hle, hge.trans_lt (hb' hopen).2⟩⟩

theorem le_of_pick? {w : Window} {step count : Nat} (h : w.pick? step = some count) : count ≤ w.value / step + 1 := by
  unfold pick? at h
  dsimp only at h
  split at h
  · split at h <;> cases h
    · exact Nat.le_succ _
    · exact Nat.le_refl _
  · cases h
    exact Nat.le_succ _
  · cases h
    exact Nat.le_refl _
  · cases h

/-- Where neither of the two points around the value is in the window, no point of the grid is. -/
theorem not_holds_of_pick? {w : Window} (hv : w.holds w.value = true) {step : Nat} (hstep : 0 < step)
    (h : w.pick? step = none) (count : Nat) : w.holds (count * step) = false := by
  have haround : w.holds (w.value / step * step) = false ∧ w.holds ((w.value / step + 1) * step) = false := by
    unfold pick? at h
    dsimp only at h
    split at h
    · split at h <;> cases h
    · cases h
    · cases h
    · rename_i hbelow habove
      exact ⟨hbelow, habove⟩
  refine Bool.eq_false_iff.2 fun hcount => ?_
  rcases Nat.lt_or_ge (w.value / step) count with hlt | hge
  · have hle : w.value ≤ (w.value / step + 1) * step := (Nat.lt_mul_of_div_lt (Nat.lt_succ_self _) hstep).le
    have habove := holds_of_between hv hcount hle (Nat.mul_le_mul_right step hlt)
    rw [haround.2] at habove
    cases habove
  · have hbelow := holds_of_between hcount hv (Nat.mul_le_mul_right step hge) (Nat.div_mul_le_self _ _)
    rw [haround.1] at hbelow
    cases hbelow

theorem coarsest_le (w : Window) : ∀ k, (w.coarsest k).2 ≤ k
  | 0 => Nat.le_refl 0
  | k + 1 => by
    rw [coarsest]
    split
    · exact Nat.le_refl _
    · exact (w.coarsest_le k).trans (Nat.le_succ k)

/-- **No grid coarser than the one of the search's result has a point in the window.** -/
theorem not_holds_of_coarser {w : Window} (hv : w.holds w.value = true) {grid : Nat} (count : Nat) :
    ∀ {k : Nat}, (w.coarsest k).2 < grid → grid ≤ k → w.holds (count * Nat.pow 10 grid) = false
  | 0, h, hle => absurd (Nat.lt_of_lt_of_le h hle) (Nat.not_lt_zero _)
  | k + 1, h, hle => by
    rw [coarsest] at h
    split at h
    · exact absurd hle (Nat.not_le.2 h)
    · rename_i hpick
      rcases Nat.eq_or_lt_of_le hle with rfl | hlt
      · exact not_holds_of_pick? hv (Nat.pow_pos (by decide)) hpick count
      · exact not_holds_of_coarser hv count h (Nat.le_of_lt_succ hlt)

theorem div_ten_mul_pow {count : Nat} (h : count % 10 = 0) (grid : Nat) :
    count / 10 * Nat.pow 10 (grid + 1) = count * Nat.pow 10 grid := by
  show count / 10 * 10 ^ (grid + 1) = count * 10 ^ grid
  rw [Nat.pow_succ', ← Nat.mul_assoc, Nat.div_mul_cancel (Nat.dvd_of_mod_eq_zero h)]

/-- The search's result does not end in a zero, or the next coarser grid would have this point too. -/
theorem coarsest_mod_ten {w : Window} (hv : w.holds w.value = true) (hzero : w.holds 0 = false) {k : Nat}
    (h : w.value < 10 ^ (k + 1)) : (w.coarsest (k + 1)).1 % 10 ≠ 0 := by
  intro hmod
  have hholds := holds_coarsest hv (k + 1)
  cases hpick : w.pick? (Nat.pow 10 (k + 1)) with
  | some count =>
    -- the grid is coarser than the value, so the only points of it that are tried are zero and one
    have hle := le_of_pick? hpick
    rw [show w.value / Nat.pow 10 (k + 1) = 0 from Nat.div_eq_of_lt h] at hle
    simp only [coarsest, hpick] at hmod hholds
    obtain rfl : count = 0 := by omega
    rw [Nat.zero_mul, hzero] at hholds
    cases hholds
  | none =>
    have hgrid : (w.coarsest (k + 1)).2 = (w.coarsest k).2 := by simp only [coarsest, hpick]
    have hcoarser := not_holds_of_coarser hv ((w.coarsest (k + 1)).1 / 10) (Nat.lt_succ_self (w.coarsest (k + 1)).2)
      (hgrid ▸ Nat.succ_le_succ (w.coarsest_le k))
    rw [div_ten_mul_pow hmod, hholds] at hcoarser
    cases hcoarser

theorem shortest_mod_ten {w : Window} (hv : w.holds w.value = true) (hzero : w.holds 0 = false) :
    w.shortest.coefficient % 10 ≠ 0 :=
  coarsest_mod_ten hv hzero (lt_digitBound w.value)

theorem le_exponent_shortest {w : Window} (hv : w.holds w.value = true) (hzero : w.holds 0 = false) {n grid : Nat}
    (h : w.value = n * Nat.pow 10 grid) : (grid - 1075 : Int) ≤ w.shortest.exponent := by
  have hbound : grid ≤ digitBound w.value := by
    have hn : n ≠ 0 := by
      rintro rfl
      rw [Nat.zero_mul] at h
      rw [h, hzero] at hv
      cases hv
    have hle : 10 ^ grid ≤ w.value := h ▸ Nat.le_mul_of_pos_left _ (Nat.pos_of_ne_zero hn)
    exact ((Nat.pow_lt_pow_iff_right (by decide)).1 (hle.trans_lt (lt_digitBound w.value))).le
  rw [shortest_eq]
  by_contra hlt
  have hcoarser := not_holds_of_coarser hv n (by dsimp only at hlt; omega) hbound
  rw [← h, hv] at hcoarser
  cases hcoarser

theorem not_holds_zero {place : Nat} (h : 0 < place) : (ofPlace place).holds 0 = false := by
  have hlower : 0 < (Binary64.units (place - 1) + Binary64.units place) * halfUnit :=
    Nat.mul_pos (Nat.add_pos_right _ (Nat.zero_lt_of_lt (Binary64.units_strictMono h))) halfUnit_pos
  rw [Bool.eq_false_iff, ne_eq, holds_iff, ofPlace_eq]
  exact fun hzero => absurd hzero.1 (Nat.not_le.2 hlower)

end Window

theorem coefficient_ofPlace_mod_ten {place : Nat} (h : 0 < place) : (ofPlace place).coefficient % 10 ≠ 0 := by
  rw [ofPlace]
  exact Window.shortest_mod_ten (Window.holds_value h) (Window.not_holds_zero h)

end Decimal
end Calculator
