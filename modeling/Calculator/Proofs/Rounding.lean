import Calculator.Decimal.Basic
import Mathlib.Algebra.Order.Field.Power
import Mathlib.Data.Rat.Cast.Order
import Mathlib.Tactic.FieldSimp
import Mathlib.Tactic.Linarith
import Mathlib.Tactic.Positivity
import Mathlib.Tactic.Ring
/-!
# Proofs.Rounding — the place that a value is rounded to

The doubles of a binade are evenly spaced, so a place is `q` spacings of 2^`k` units (`units_add`).  A value between
the midpoints to the neighbours of a place is rounded to this place, also where the neighbour below is half as far
away as the one above (`nearestPlace_eq`), and so is a decimal of that value (`Decimal.nearestPlace_eq`).
-/
namespace Calculator
namespace Binary64

theorem roundHalfEven_eq {num den q : Nat} (hden : 0 < den) (hlower : 2 * q * den ≤ 2 * num + den)
    (hupper : 2 * num ≤ (2 * q + 1) * den)
    (hodd : q % 2 = 1 → 2 * q * den < 2 * num + den ∧ 2 * num < (2 * q + 1) * den) : roundHalfEven num den = q := by
  have hdiv := Nat.div_add_mod num den
  have hmod := Nat.mod_lt num hden
  have hle : num / den ≤ q := by
    refine Nat.le_of_lt_succ ((Nat.div_lt_iff_lt_mul hden).2 ?_)
    linarith
  have hge : q ≤ num / den + 1 := by
    refine Nat.le_of_lt_succ (Nat.lt_of_mul_lt_mul_right (a := den) ?_)
    linarith
  have hwhole : q = num / den ∨ q = num / den + 1 := by omega
  unfold roundHalfEven
  generalize num / den = whole at *
  generalize num % den = rest at *
  rcases hwhole with rfl | rfl
  · refine if_pos ?_
    rcases Nat.lt_or_ge (2 * rest) den with hlt | hge
    · exact .inl hlt
    · refine .inr ⟨by linarith, ?_⟩
      by_contra hpar
      obtain ⟨-, hstrict⟩ := hodd (by omega)
      linarith
  · refine if_neg ?_
    rintro (hlt | ⟨heq, hpar⟩)
    · linarith
    · obtain ⟨hstrict, -⟩ := hodd (by omega)
      linarith

theorem units_add {k q : Nat} (hq : q ≤ 2 * perBinade) (h : k = 0 ∨ perBinade ≤ q) :
    units (k * perBinade + q) = q * 2 ^ k := by
  have hpos : 0 < perBinade := by decide
  rcases Nat.lt_or_ge q perBinade with hlt | hge
  · obtain rfl : k = 0 := h.resolve_right (by omega)
    rw [Nat.zero_mul, Nat.zero_add, units, if_pos hlt, Nat.pow_zero, Nat.mul_one]
  · obtain ⟨r, rfl⟩ := Nat.exists_eq_add_of_le hge
    have hplace : k * perBinade + (perBinade + r) = r + (k + 1) * perBinade := by ring
    rw [hplace, units, if_neg (by nlinarith), Nat.add_mul_mod_self_right, Nat.add_mul_div_right _ _ hpos]
    rcases Nat.lt_or_ge r perBinade with hr | hr
    · rw [Nat.mod_eq_of_lt hr, Nat.div_eq_of_lt hr, Nat.zero_add, Nat.add_sub_cancel]
      rfl
    · obtain rfl : r = perBinade := by omega
      rw [Nat.mod_self, Nat.div_self hpos, Nat.add_comm 1, Nat.add_sub_cancel]
      show (perBinade + 0) * 2 ^ (k + 1) = _
      ring

/-- The binade of a value, counted in doublings of the spacing. -/
theorem doublings_eq {num den k : Nat} (hden : 0 < den) (hlt : num < 2 * perBinade * 2 ^ k * den)
    (hge : k = 0 ∨ perBinade * 2 ^ k * den ≤ num) : (num / den).log2 - 52 = k := by
  have hupper : num / den < 2 ^ (53 + k) := by
    rw [Nat.pow_add, show 2 ^ 53 = 2 * perBinade by decide]
    exact (Nat.div_lt_iff_lt_mul hden).2 hlt
  rcases hge with rfl | hge
  · rcases Nat.eq_zero_or_pos (num / den) with hzero | hpos
    · rw [hzero]
      rfl
    · have := (Nat.log2_lt hpos.ne').2 hupper
      omega
  · have hlower : 2 ^ (52 + k) ≤ num / den := by
      rw [Nat.pow_add, show 2 ^ 52 = perBinade by decide]
      exact (Nat.le_div_iff_mul_le hden).2 hge
    have hne : num / den ≠ 0 := fun h => by
      rw [h] at hlower
      exact absurd hlower (Nat.not_le.2 (Nat.two_pow_pos _))
    have h₁ := (Nat.log2_lt hne).2 hupper
    have h₂ := (Nat.le_log2 hne).2 hlower
    omega

theorem nearestPlace_of_binade {num den k q : Nat} (hden : 0 < den) (hlt : num < 2 * perBinade * 2 ^ k * den)
    (hge : k = 0 ∨ perBinade * 2 ^ k * den ≤ num) (hlower : 2 * q * (den * 2 ^ k) ≤ 2 * num + den * 2 ^ k)
    (hupper : 2 * num ≤ (2 * q + 1) * (den * 2 ^ k))
    (hodd : q % 2 = 1 → 2 * q * (den * 2 ^ k) < 2 * num + den * 2 ^ k ∧ 2 * num < (2 * q + 1) * (den * 2 ^ k)) :
    nearestPlace num den = min (k * perBinade + q) infinityPlace := by
  have hpos : 0 < den * 2 ^ k := Nat.mul_pos hden (Nat.two_pow_pos k)
  simp only [nearestPlace, doublings_eq hden hlt hge, Nat.pow_eq]
  rw [roundHalfEven_eq hpos hlower hupper hodd]

/-- A place is inside of a binade, where both its neighbours are 2^`k` units away, or the first one of a binade. -/
theorem exists_binade (place : Nat) :
    (∃ k q, place = k * perBinade + q ∧ q < 2 * perBinade ∧ (k = 0 ∨ perBinade < q)) ∨
      ∃ k, place = (k + 2) * perBinade := by
  have hdiv := Nat.div_add_mod' place perBinade
  have hmod := Nat.mod_lt place (by decide : 0 < perBinade)
  rcases Nat.lt_or_ge (place / perBinade) 2 with hlt | hge
  · have hle : place / perBinade * perBinade ≤ 1 * perBinade := Nat.mul_le_mul_right _ (Nat.le_of_lt_succ hlt)
    exact .inl ⟨0, place, by omega, by omega, .inl rfl⟩
  · obtain ⟨k, hk⟩ := Nat.exists_eq_add_of_le' hge
    rw [hk] at hdiv
    rcases Nat.eq_zero_or_pos (place % perBinade) with hzero | hpos
    · exact .inr ⟨k, by rw [← hdiv, hzero, Nat.add_zero]⟩
    · refine .inl ⟨k + 1, perBinade + place % perBinade, ?_, by omega, .inr (by omega)⟩
      rw [Nat.add_mul] at hdiv ⊢
      omega

theorem even_binade (k : Nat) : k * perBinade % 2 = 0 := by
  rw [Nat.mul_mod, show perBinade % 2 = 0 by decide, Nat.mul_zero]

/-- Within a binade the neighbours of a place are equally far away. -/
theorem nearestPlace_of_inner {num den k q : Nat} (hden : 0 < den) (hq : q < 2 * perBinade)
    (hk : k = 0 ∨ perBinade < q) (hlower : 2 * q * (den * 2 ^ k) ≤ 2 * num + den * 2 ^ k)
    (hupper : 2 * num ≤ (2 * q + 1) * (den * 2 ^ k))
    (hodd : q % 2 = 1 → 2 * q * (den * 2 ^ k) < 2 * num + den * 2 ^ k ∧ 2 * num < (2 * q + 1) * (den * 2 ^ k)) :
    nearestPlace num den = min (k * perBinade + q) infinityPlace := by
  have hpos : 0 < den * 2 ^ k := Nat.mul_pos hden (Nat.two_pow_pos k)
  refine nearestPlace_of_binade hden ?_ ?_ hlower hupper hodd
  · have hle : (q + 1) * (den * 2 ^ k) ≤ 2 * perBinade * (den * 2 ^ k) := Nat.mul_le_mul_right _ hq
    linarith
  · refine hk.imp_right fun hlt => ?_
    have hle : (perBinade + 1) * (den * 2 ^ k) ≤ q * (den * 2 ^ k) := Nat.mul_le_mul_right _ hlt
    linarith

/-- The neighbour below the first place of a binade is half as far away as the one above. -/
theorem nearestPlace_of_first {num den k : Nat} (hden : 0 < den)
    (hlower : (4 * perBinade - 1) * (den * 2 ^ k) ≤ 2 * num) (hupper : num ≤ (2 * perBinade + 1) * (den * 2 ^ k)) :
    nearestPlace num den = min ((k + 1) * perBinade + perBinade) infinityPlace := by
  have hpos : 0 < den * 2 ^ k := Nat.mul_pos hden (Nat.two_pow_pos k)
  have hsize : (2 : Nat) ≤ perBinade := by decide
  have heven : perBinade % 2 = 0 := by decide
  have hspace : den * 2 ^ (k + 1) = 2 * (den * 2 ^ k) := by ring
  have hless : (4 * perBinade - 1) * (den * 2 ^ k) + den * 2 ^ k = 4 * perBinade * (den * 2 ^ k) := by
    rw [← Nat.succ_mul, Nat.succ_eq_add_one, Nat.sub_add_cancel (by omega)]
  have hone : 2 * (den * 2 ^ k) ≤ perBinade * (den * 2 ^ k) := Nat.mul_le_mul_right _ hsize
  rcases Nat.lt_or_ge num (2 * perBinade * (den * 2 ^ k)) with hlt | hge
  · have hplace : (k + 1) * perBinade + perBinade = k * perBinade + 2 * perBinade := by ring
    rw [hplace]
    refine nearestPlace_of_binade hden ?_ (.inr ?_) ?_ ?_ fun h => by omega
    · linarith
    · linarith
    · linarith
    · linarith
  · refine nearestPlace_of_binade hden ?_ (.inr ?_) ?_ ?_ fun h => by omega
    · rw [Nat.mul_assoc, Nat.mul_comm (2 ^ (k + 1)), hspace]
      linarith
    · rw [Nat.mul_assoc, Nat.mul_comm (2 ^ (k + 1)), hspace]
      linarith
    · rw [hspace]
      linarith
    · rw [hspace]
      linarith

/-- A place inside of a binade, and its neighbours. -/
theorem units_inner {k r : Nat} (hlt : r + 1 < 2 * perBinade) (hk : k = 0 ∨ perBinade < r + 1) :
    units (k * perBinade + (r + 1) - 1) = r * 2 ^ k ∧ units (k * perBinade + (r + 1)) = (r + 1) * 2 ^ k ∧
      units (k * perBinade + (r + 1) + 1) = (r + 2) * 2 ^ k := by
  refine ⟨?_, units_add (by omega) (hk.imp_right Nat.le_of_lt), ?_⟩
  · rw [Nat.add_succ_sub_one, units_add (by omega) (hk.imp_right Nat.le_of_lt_succ)]
  · rw [Nat.add_assoc, units_add (by omega) (hk.imp_right fun h => by omega)]

/-- The first place of a binade, and its neighbours.  The one below belongs to the binade before. -/
theorem units_first (k : Nat) :
    units ((k + 2) * perBinade - 1) = (2 * perBinade - 1) * 2 ^ k ∧
      units ((k + 2) * perBinade) = 2 * perBinade * 2 ^ k ∧
      units ((k + 2) * perBinade + 1) = (perBinade + 1) * 2 ^ (k + 1) := by
  have hsize : 2 ≤ perBinade := by decide
  refine ⟨?_, ?_, ?_⟩
  · have hless : (k + 2) * perBinade - 1 = k * perBinade + (2 * perBinade - 1) := by
      rw [Nat.add_mul]
      omega
    rw [hless, units_add (by omega) (.inr (by omega))]
  · rw [Nat.add_mul, units_add (Nat.le_refl _) (.inr (by omega))]
  · have hmore : (k + 2) * perBinade + 1 = (k + 1) * perBinade + (perBinade + 1) := by
      rw [Nat.add_mul, Nat.add_mul]
      omega
    rw [hmore, units_add (by omega) (.inr (by omega))]

theorem nearestPlace_of_half {num den : Nat} (hden : 0 < den) (h : 2 * num ≤ den) : nearestPlace num den = 0 := by
  have hlower : 2 * 0 * (den * 2 ^ 0) ≤ 2 * num + den * 2 ^ 0 := by omega
  have hupper : 2 * num ≤ (2 * 0 + 1) * (den * 2 ^ 0) := by omega
  exact nearestPlace_of_inner hden (by decide) (.inl rfl) hlower hupper nofun

/-- **What lies between the midpoints to the neighbours of a place is rounded to it**, and to infinity where there are
no more doubles. -/
theorem nearestPlace_of_between {num den place : Nat} (hden : 0 < den)
    (hlower : (units (place - 1) + units place) * den ≤ 2 * num)
    (hupper : 2 * num ≤ (units place + units (place + 1)) * den)
    (hodd : place % 2 = 1 → (units (place - 1) + units place) * den < 2 * num ∧
      2 * num < (units place + units (place + 1)) * den) : nearestPlace num den = min place infinityPlace := by
  rcases Nat.eq_zero_or_pos place with rfl | hpos
  · refine nearestPlace_of_half hden (hupper.trans (Nat.le_of_eq ?_))
    rw [show units 0 + units (0 + 1) = 1 by decide, Nat.one_mul]
  rcases exists_binade place with ⟨k, q, hq, hlt, hk⟩ | ⟨k, hk⟩
  · have hqpos : 0 < q := by
      rcases hk with rfl | hk
      · omega
      · omega
    obtain ⟨r, rfl⟩ := Nat.exists_eq_add_of_le' hqpos
    obtain ⟨hbelow, hunits, habove⟩ := units_inner hlt hk
    rw [← hq] at hbelow hunits habove
    have hparity : place % 2 = (r + 1) % 2 := by
      rw [hq, Nat.add_mod, even_binade, Nat.zero_add, Nat.mod_mod]
    rw [hunits, hbelow] at hlower
    rw [hunits, habove] at hupper
    rw [hunits, hbelow, habove, hparity] at hodd
    have hl : 2 * (r + 1) * (den * 2 ^ k) ≤ 2 * num + den * 2 ^ k := by linarith only [hlower]
    have hu : 2 * num ≤ (2 * (r + 1) + 1) * (den * 2 ^ k) := by linarith only [hupper]
    rw [nearestPlace_of_inner hden hlt hk hl hu ?_, ← hq]
    exact fun h => ⟨by linarith only [(hodd h).1], by linarith only [(hodd h).2]⟩
  · obtain ⟨hbelow, hunits, habove⟩ := units_first k
    rw [← hk] at hbelow hunits habove
    have hsize : 2 ≤ perBinade := by decide
    have hsum : 2 * perBinade - 1 + 2 * perBinade = 4 * perBinade - 1 := by omega
    rw [hunits, hbelow, ← Nat.add_mul, hsum] at hlower
    rw [hunits, habove] at hupper
    have hplace : (k + 1) * perBinade + perBinade = place := by rw [hk, ← Nat.succ_mul]
    rw [nearestPlace_of_first hden (k := k) (by linarith only [hlower]) ?_, hplace]
    rw [Nat.pow_succ] at hupper
    linarith only [hupper]

theorem units_lt_succ (place : Nat) : units place < units (place + 1) := by
  have hsize : 2 ≤ perBinade := by decide
  rcases exists_binade place with ⟨k, q, rfl, hlt, hk⟩ | ⟨k, rfl⟩
  · rw [Nat.add_assoc, units_add (by omega) (hk.imp_right Nat.le_of_lt),
      units_add (by omega) (hk.imp_right fun h => by omega)]
    exact Nat.mul_lt_mul_of_pos_right (Nat.lt_succ_self q) (Nat.two_pow_pos k)
  · obtain ⟨-, hunits, habove⟩ := units_first k
    have hpow : 2 * perBinade * 2 ^ k = perBinade * 2 ^ (k + 1) := by ring
    rw [hunits, habove, hpow]
    exact Nat.mul_lt_mul_of_pos_right (Nat.lt_succ_self _) (Nat.two_pow_pos _)

theorem units_strictMono : StrictMono units := strictMono_nat_of_lt_succ units_lt_succ

/-- Whether a value, in units, is between the midpoints to the neighbours of a place.  An even place has these
midpoints too. -/
def Nearest (v : ℚ) (place : Nat) : Prop :=
  (units (place - 1) + units place : Nat) ≤ 2 * v ∧ 2 * v ≤ (units place + units (place + 1) : Nat) ∧
    (place % 2 = 1 → (units (place - 1) + units place : Nat) < 2 * v ∧ 2 * v < (units place + units (place + 1) : Nat))

theorem nearestPlace_eq {num den place : Nat} (hden : 0 < den) (h : Nearest (num / den) place) :
    nearestPlace num den = min place infinityPlace := by
  have hq : (0 : ℚ) < den := by exact_mod_cast hden
  have hle (n : Nat) : (n : ℚ) ≤ 2 * (num / den) ↔ n * den ≤ 2 * num := by
    rw [← mul_div_assoc, le_div_iff₀ hq]
    norm_cast
  have hge (n : Nat) : 2 * (num / den : ℚ) ≤ n ↔ 2 * num ≤ n * den := by
    rw [← mul_div_assoc, div_le_iff₀ hq]
    norm_cast
  obtain ⟨hlower, hupper, hodd⟩ := h
  refine nearestPlace_of_between hden ((hle _).1 hlower) ((hge _).1 hupper) fun hp => ?_
  obtain ⟨hlower, hupper⟩ := hodd hp
  exact ⟨Nat.lt_of_not_le fun h => absurd ((hge _).2 h) (not_le.2 hlower),
    Nat.lt_of_not_le fun h => absurd ((hle _).2 h) (not_le.2 hupper)⟩

end Binary64

namespace Decimal

def unitsPerOne : Nat := Nat.pow 2 1074

/-- The value of a decimal, in units. -/
def units (d : Decimal) : ℚ := d.coefficient * 10 ^ d.exponent * unitsPerOne

theorem unitsPerOne_pos : (0 : ℚ) < unitsPerOne := Nat.cast_pos.2 (by decide +kernel)

theorem two_pow_lt : (2 : Nat) ^ 93 < 10 ^ 28 := by decide

theorem lt_digitBound (n : Nat) : n < 10 ^ digitBound n := by
  have hbits : (n.log2 + 1) * 28 ≤ 93 * digitBound n := by
    unfold digitBound
    omega
  have hpow : (2 ^ (n.log2 + 1)) ^ 93 ≤ (10 ^ digitBound n) ^ 93 := by
    calc (2 ^ (n.log2 + 1)) ^ 93 = (2 ^ 93) ^ (n.log2 + 1) := by rw [← Nat.pow_mul, ← Nat.pow_mul, Nat.mul_comm]
      _ ≤ (10 ^ 28) ^ (n.log2 + 1) := Nat.pow_le_pow_left two_pow_lt.le _
      _ = 10 ^ ((n.log2 + 1) * 28) := by rw [← Nat.pow_mul, Nat.mul_comm]
      _ ≤ 10 ^ (93 * digitBound n) := Nat.pow_le_pow_right (by decide) hbits
      _ = (10 ^ digitBound n) ^ 93 := by rw [← Nat.pow_mul, Nat.mul_comm]
  exact Nat.lt_of_lt_of_le Nat.lt_log2_self ((Nat.pow_le_pow_iff_left (by decide)).1 hpow)

theorem cast_pow (b n : Nat) : ((Nat.pow b n : Nat) : ℚ) = (b : ℚ) ^ n := Nat.cast_pow b n

/-- A number times a power of ten, as a fraction. -/
theorem units_eq (d : Decimal) : d.units =
    (d.coefficient * Nat.pow 10 d.exponent.toNat * unitsPerOne : Nat) / (Nat.pow 10 (-d.exponent).toNat : Nat) := by
  rw [units, Nat.cast_mul, Nat.cast_mul, cast_pow, cast_pow, Nat.cast_ofNat]
  obtain ⟨n, hn | hn⟩ := Int.eq_nat_or_neg d.exponent
  · have hneg : (-(n : Int)).toNat = 0 := by omega
    rw [hn, Int.toNat_natCast, hneg, zpow_natCast, pow_zero, div_one]
  · have hneg : (-(n : Int)).toNat = 0 := by omega
    rw [hn, neg_neg, Int.toNat_natCast, hneg, zpow_neg, zpow_natCast, pow_zero, mul_one, mul_right_comm]
    rfl

theorem le_units {d : Decimal} {n : Nat} (hc : 10 ^ n ≤ d.coefficient) {e : Int} (he : e ≤ d.exponent + n) :
    10 ^ e * unitsPerOne ≤ d.units := by
  have hc : (10 : ℚ) ^ n ≤ d.coefficient := by exact_mod_cast hc
  refine mul_le_mul_of_nonneg_right ?_ unitsPerOne_pos.le
  calc (10 : ℚ) ^ e ≤ 10 ^ (d.exponent + n) := zpow_le_zpow_right₀ (by norm_num) he
    _ = 10 ^ n * 10 ^ d.exponent := by rw [zpow_add₀ (by norm_num), zpow_natCast, mul_comm]
    _ ≤ d.coefficient * 10 ^ d.exponent := by gcongr

theorem units_lt {d : Decimal} {n : Nat} (hc : d.coefficient < 10 ^ n) {e : Int} (he : d.exponent + n ≤ e) :
    d.units < 10 ^ e * unitsPerOne := by
  have hc : (d.coefficient : ℚ) < 10 ^ n := by exact_mod_cast hc
  refine mul_lt_mul_of_pos_right ?_ unitsPerOne_pos
  calc (d.coefficient : ℚ) * 10 ^ d.exponent < 10 ^ n * 10 ^ d.exponent := by gcongr
    _ = 10 ^ (d.exponent + n) := by rw [zpow_add₀ (by norm_num), zpow_natCast, mul_comm]
    _ ≤ 10 ^ e := zpow_le_zpow_right₀ (by norm_num) he

theorem cast_lt_mul {a n : Nat} (h : a < Nat.pow 10 n * unitsPerOne) : (a : ℚ) < 10 ^ (n : Int) * unitsPerOne := by
  have h : (a : ℚ) < (Nat.pow 10 n * unitsPerOne : Nat) := Nat.cast_lt.2 h
  rwa [Nat.cast_mul, cast_pow, Nat.cast_ofNat, ← zpow_natCast] at h

theorem mul_lt_half {n : Nat} (h : unitsPerOne * 2 < Nat.pow 10 n) :
    (10 : ℚ) ^ (-n : Int) * unitsPerOne < 1 / 2 := by
  have h : ((unitsPerOne * 2 : Nat) : ℚ) < (Nat.pow 10 n : Nat) := Nat.cast_lt.2 h
  rw [Nat.cast_mul, cast_pow, Nat.cast_ofNat, Nat.cast_ofNat] at h
  rw [zpow_neg, zpow_natCast, inv_mul_lt_iff₀ (by positivity), mul_one_div, lt_div_iff₀ two_pos]
  exact h

/-- **What lies between the midpoints to the neighbours of a place reads as the double there.** -/
theorem nearestPlace_eq {d : Decimal} {place : Nat} (h : Binary64.Nearest d.units place) :
    d.nearestPlace = min place Binary64.infinityPlace := by
  obtain ⟨hlower, hupper, -⟩ := id h
  have hzero (hsmall : 2 * d.units < 1) : place = 0 := by
    by_contra hne
    have := Binary64.units_strictMono (Nat.sub_lt (Nat.pos_of_ne_zero hne) Nat.one_pos)
    have hleast : (1 : ℚ) ≤ (Binary64.units (place - 1) + Binary64.units place : Nat) := by
      exact_mod_cast (by omega : 1 ≤ Binary64.units (place - 1) + Binary64.units place)
    linarith only [hlower, hleast, hsmall]
  have hinfinity (hlarge : Binary64.units Binary64.infinityPlace < d.units) : Binary64.infinityPlace ≤ place := by
    by_contra hlt
    have h₁ := Binary64.units_strictMono (not_le.1 hlt)
    have h₂ := Binary64.units_strictMono.monotone (Nat.succ_le_of_lt (not_le.1 hlt))
    rw [Nat.succ_eq_add_one] at h₂
    have hmost : ((Binary64.units place + Binary64.units (place + 1) : Nat) : ℚ) ≤
        2 * Binary64.units Binary64.infinityPlace := by
      exact_mod_cast (by omega :
        Binary64.units place + Binary64.units (place + 1) ≤ 2 * Binary64.units Binary64.infinityPlace)
    linarith only [hupper, hmost, hlarge]
  unfold nearestPlace
  split_ifs with hcoefficient hlarge hsmall
  · have hnone : d.units = 0 := by rw [units, hcoefficient, Nat.cast_zero, zero_mul, zero_mul]
    rw [hzero (by rw [hnone]; norm_num), Nat.zero_min]
  · -- ten to the 310th is beyond all doubles
    have hcut : ((310 : Nat) : Int) ≤ d.exponent + (0 : Nat) := by omega
    have hone : 10 ^ 0 ≤ d.coefficient := Nat.pos_of_ne_zero hcoefficient
    exact (Nat.min_eq_right (hinfinity ((cast_lt_mul (by decide +kernel)).trans_le (le_units hone hcut)))).symm
  · -- ten to the power of -331 is less than half a unit
    have hcut : d.exponent + digitBound d.coefficient ≤ (-(331 : Nat) : Int) := by omega
    have htiny := (units_lt (lt_digitBound _) hcut).trans (mul_lt_half (by decide +kernel))
    rw [hzero (by linarith only [htiny]), Nat.zero_min]
  · rw [units_eq] at h
    unfold unitsPerOne at h
    exact Binary64.nearestPlace_eq (Nat.pow_pos (by decide)) h

end Decimal
end Calculator
