import Calculator.Binary64
import Mathlib
/-!
# Proofs.Pattern — the bits of a double are its sign and its place

A double is unpacked into its sign, its digits and the power of two that the last of them stands for.  Its sign and
its place say all of that (`unpack_toModel`), so a double is known from them (`ofPlace_place`), and where there is no
sign, the order of doubles is the order of their places (`le_abs_iff`, `abs_lt_iff`).
-/
namespace Calculator
namespace Binary64
open Float.Model UnpackedFloat

def sign (negative : Bool) : Sign := if negative then .negative else .positive

/-- The bit pattern of a sign and a place. -/
def signed (negative : Bool) (place : Nat) : Nat := if negative then signBit + place else place

/-- The digits of the double at a place, as a whole number. -/
def mantissa (place : Nat) : Nat := if place < perBinade then place else perBinade + place % perBinade

/-- The power of two that its last digit stands for. -/
def exponent (place : Nat) : Int := (max (place / perBinade) 1 : Nat) - 1075

theorem packComponents_eq (negative : Bool) {place : Nat} (h : place < signBit) :
    packComponents .binary64 (sign negative) (BitVec.ofNat 11 (place / perBinade))
      (BitVec.ofNat 52 (place % perBinade)) = BitVec.ofNat Format.binary64.numBits (signed negative place) := by
  have hplace : place / perBinade * 2 ^ 52 + place % perBinade = place := Nat.div_add_mod' place perBinade
  have hbinade : place / perBinade < 2 ^ 11 := Nat.div_lt_of_lt_mul (by simpa [perBinade, signBit] using h)
  have hrest : place % perBinade < 2 ^ 52 := Nat.mod_lt _ (by decide)
  have hsign : (sign negative).toBitVec.toNat = if negative then 1 else 0 := by cases negative <;> rfl
  apply BitVec.eq_of_toNat_eq
  rw [packComponents, BitVec.toNat_append, BitVec.toNat_append, BitVec.toNat_ofNat, BitVec.toNat_ofNat,
    Nat.mod_eq_of_lt hbinade, Nat.mod_eq_of_lt hrest, ← Nat.shiftLeft_add_eq_or_of_lt hrest,
    ← Nat.shiftLeft_add_eq_or_of_lt hbinade, Nat.shiftLeft_eq, Nat.shiftLeft_eq, Nat.add_mul, Nat.add_assoc, hplace,
    hsign]
  rw [signBit] at h
  show _ = (BitVec.ofNat 64 (signed negative place)).toNat
  rw [BitVec.toNat_ofNat, signed, signBit]
  cases negative <;> simp <;> omega

theorem unpackSign_packComponents (negative : Bool) (e : BitVec 11) (m : BitVec 52) :
    Sign.ofBitVec (unpackSign (packComponents .binary64 (sign negative) e m)) = sign negative := by
  have h : unpackSign (packComponents .binary64 (sign negative) e m) = (sign negative).toBitVec := by
    simp only [unpackSign, packComponents, BitVec.extractLsb]
    rw [BitVec.extractLsb'_append_eq_of_le (by omega), BitVec.extractLsb'_append_eq_of_le (by omega)]
    cases negative <;> rfl
  rw [h]
  cases negative <;> rfl

theorem toNat_one_append (m : BitVec 52) : (1#1 ++ m).toNat = perBinade + m.toNat := by
  rw [BitVec.toNat_append, ← Nat.shiftLeft_add_eq_or_of_lt m.isLt]
  rfl

theorem ofNat_ne_of_ne {w n m : Nat} (hn : n < 2 ^ w) (hm : m < 2 ^ w) (h : n ≠ m) :
    ¬ BitVec.ofNat w n = BitVec.ofNat w m := fun heq => by
  have := congrArg BitVec.toNat heq
  rw [BitVec.toNat_ofNat, BitVec.toNat_ofNat, Nat.mod_eq_of_lt hn, Nat.mod_eq_of_lt hm] at this
  exact h this

theorem mantissa_pos {place : Nat} (h : 0 < place) : 0 < mantissa place := by
  unfold mantissa
  split
  · exact h
  · exact Nat.add_pos_left (by decide) _

section

variable (negative : Bool) {place : Nat}

theorem unpack_finite (h : 0 < place) (hs : place < infinityPlace) :
    UnpackedFloat.unpack .binary64 (BitVec.ofNat _ (signed negative place)) =
      .finite (sign negative) (mantissa place) (exponent place) (mantissa_pos h) := by
  have hbinade : place / perBinade < 2047 := Nat.div_lt_of_lt_mul (by rwa [Nat.mul_comm])
  have hrest : place % perBinade < 2 ^ 52 := Nat.mod_lt _ (by decide)
  have hne : ¬ BitVec.ofNat 11 (place / perBinade) = -1#11 :=
    ofNat_ne_of_ne (m := 2047) (by omega) (by decide) (by omega)
  have he : (BitVec.ofNat 11 (place / perBinade)).toNat = place / perBinade := Nat.mod_eq_of_lt (by omega)
  have hm : (BitVec.ofNat 52 (place % perBinade)).toNat = place % perBinade := Nat.mod_eq_of_lt hrest
  rw [← packComponents_eq negative (Nat.lt_trans hs (by decide)), UnpackedFloat.unpack]
  simp only [unpackExponent_packComponents, unpackMantissa_packComponents, unpackSign_packComponents,
    toNat_one_append, he, hm]
  rw [if_neg hne]
  rcases Nat.lt_or_ge place perBinade with hlt | hge
  · -- a subnormal: the exponent is zero, and no leading one is added
    have hzero : place / perBinade = 0 := Nat.div_eq_of_lt hlt
    have hmod : place % perBinade = place := Nat.mod_eq_of_lt hlt
    have hmne := ofNat_ne_of_ne hrest (by decide : 0 < 2 ^ 52) (by omega)
    rw [if_pos (by rw [hzero]), dif_neg hmne]
    simp only [mantissa, exponent, if_pos hlt, hzero, hmod]
    rfl
  · have hpos : 0 < place / perBinade := Nat.div_pos hge (by decide)
    rw [if_neg (ofNat_ne_of_ne (m := 0) (by omega) (by decide) (by omega))]
    simp only [mantissa, exponent, if_neg (Nat.not_lt.2 hge), Nat.max_eq_left hpos]
    rfl

/-- All bits of the exponent are set, and some bit of the mantissa. -/
theorem nan_fields (h : infinityPlace < place) (hs : place < signBit) :
    place / perBinade = 2047 ∧ ¬ BitVec.ofNat 52 (place % perBinade) = 0#52 := by
  have hrest : place % perBinade < 2 ^ 52 := Nat.mod_lt _ (by decide)
  have hne : place % perBinade ≠ 0 := by
    simp [infinityPlace, perBinade, signBit] at *
    omega
  refine ⟨?_, ofNat_ne_of_ne hrest (by decide) hne⟩
  simp [infinityPlace, perBinade, signBit] at *
  omega

theorem unpack_notANumber (h : infinityPlace < place) (hs : place < signBit) :
    UnpackedFloat.unpack .binary64 (BitVec.ofNat _ (signed negative place)) = .notANumber := by
  obtain ⟨hbinade, hrest⟩ := nan_fields h hs
  rw [← packComponents_eq negative hs, UnpackedFloat.unpack]
  simp only [unpackExponent_packComponents, unpackMantissa_packComponents, hbinade]
  rw [if_pos (by decide), if_neg hrest]

theorem pack_finite (h : 0 < place) (hs : place < infinityPlace) :
    UnpackedFloat.pack .binary64 (.finite (sign negative) (mantissa place) (exponent place) (mantissa_pos h)) =
      BitVec.ofNat _ (signed negative place) := by
  have hbinade : place / perBinade < 2047 := Nat.div_lt_of_lt_mul (by rwa [Nat.mul_comm])
  have hrest : place % perBinade < perBinade := Nat.mod_lt _ (by decide)
  have hsize : perBinade = 2 ^ 52 := rfl
  have hbias : (exponent place + Format.binary64.exponentBias + Format.binary64.mantissaBitsWithoutImplicit).toNat =
      max (place / perBinade) 1 := by
    show (exponent place + (1023 : Nat) + (52 : Nat)).toNat = _
    rw [exponent]
    omega
  have hfits : ¬ 2 ^ Format.binary64.exponentBits ≤ max (place / perBinade) 1 + 1 := by
    show ¬ 2 ^ 11 ≤ _
    omega
  rw [← packComponents_eq negative (Nat.lt_trans hs (by decide)), UnpackedFloat.pack]
  simp only [hbias, if_neg hfits]
  rcases Nat.lt_or_ge place perBinade with hlt | hge
  · have hlog : (mantissa place).log2 + 1 ≠ Format.binary64.mantissaBits := by
      have : place.log2 < 52 := (Nat.log2_lt (by omega)).2 hlt
      rw [mantissa, if_pos hlt]
      exact fun heq => absurd (Nat.succ.inj heq) (by omega)
    rw [if_neg hlog, mantissa, if_pos hlt, Nat.div_eq_of_lt hlt, Nat.mod_eq_of_lt hlt]
  · have hpos : 0 < place / perBinade := Nat.div_pos hge (by decide)
    have hlog : (mantissa place).log2 + 1 = Format.binary64.mantissaBits := by
      rw [mantissa, if_neg (Nat.not_lt.2 hge)]
      exact congrArg (· + 1) ((Nat.log2_eq_iff (by omega)).2 ⟨Nat.le_add_right .., by omega⟩)
    rw [if_pos hlog, mantissa, if_neg (Nat.not_lt.2 hge), Nat.max_eq_left hpos]
    exact congrArg _ (BitVec.eq_of_toNat_eq (by simp [perBinade]))

/-- What the bits of a sign and a place stand for. -/
def unpacked (place : Nat) : UnpackedFloat :=
  if place = infinityPlace then .infinity (sign negative)
  else if h : 0 < place then .finite (sign negative) (mantissa place) (exponent place) (mantissa_pos h)
  else .zero (sign negative)

/-- The bits are unpacked into it, and it is packed into the bits. -/
theorem unpacked_spec (h : place ≤ infinityPlace) :
    UnpackedFloat.unpack .binary64 (BitVec.ofNat _ (signed negative place)) = unpacked negative place ∧
      UnpackedFloat.pack .binary64 (unpacked negative place) = BitVec.ofNat _ (signed negative place) := by
  unfold unpacked
  split
  · rename_i heq
    rw [heq]
    cases negative <;> exact ⟨rfl, rfl⟩
  · rename_i hne
    have hlt : place < infinityPlace := Nat.lt_of_le_of_ne h hne
    split
    · rename_i hpos
      exact ⟨unpack_finite negative hpos hlt, pack_finite negative hpos hlt⟩
    · rename_i hzero
      obtain rfl : place = 0 := Nat.eq_zero_of_not_pos hzero
      cases negative <;> exact ⟨rfl, rfl⟩

theorem abs_unpacked (place : Nat) : (unpacked negative place).abs = unpacked false place := by
  unfold unpacked
  split
  · rfl
  · split <;> rfl

/-- A greater place has a greater exponent, or the same one and more digits. -/
theorem digits_lt {place other : Nat} (h : place < other) :
    exponent place < exponent other ∨ exponent place = exponent other ∧ mantissa place < mantissa other := by
  unfold exponent mantissa
  rw [show perBinade = 2 ^ 52 from rfl]
  split <;> split <;> omega

theorem compare_digits (place other : Nat) :
    (compare (exponent place) (exponent other)).then (compare (mantissa place) (mantissa other)) =
      compare place other := by
  rcases Nat.lt_trichotomy place other with hlt | rfl | hgt
  · rw [Nat.compare_eq_lt.2 hlt]
    rcases digits_lt hlt with he | ⟨he, hm⟩
    · rw [Int.compare_eq_lt.2 he]
      rfl
    · rw [Int.compare_eq_eq.2 he, Nat.compare_eq_lt.2 hm]
      rfl
  · rw [Int.compare_eq_eq.2 rfl, Nat.compare_eq_eq.2 rfl, Nat.compare_eq_eq.2 rfl]
    rfl
  · rw [Nat.compare_eq_gt.2 hgt]
    rcases digits_lt hgt with he | ⟨he, hm⟩
    · rw [Int.compare_eq_gt.2 he]
      rfl
    · rw [Int.compare_eq_eq.2 he.symm, Nat.compare_eq_gt.2 hm]
      rfl

/-- Doubles that are not negative are in the order of their places. -/
theorem compare_unpacked {place other : Nat} (h : place ≤ infinityPlace) (ho : other ≤ infinityPlace) :
    (unpacked false place).compare (unpacked false other) = some (compare place other) := by
  have hlt (h : place < other) : some Ordering.lt = some (compare place other) := by rw [Nat.compare_eq_lt.2 h]
  have heq (h : place = other) : some Ordering.eq = some (compare place other) := by rw [Nat.compare_eq_eq.2 h]
  have hgt (h : other < place) : some Ordering.gt = some (compare place other) := by rw [Nat.compare_eq_gt.2 h]
  unfold unpacked
  split_ifs with hp hq hqpos hppos hq hqpos hq hqpos
  · exact heq (hp.trans hq.symm)
  · exact hgt (by omega)
  · exact hgt (by omega)
  · exact hlt (by omega)
  · exact congrArg some (compare_digits place other)
  · exact hgt (by omega)
  · exact hlt (by omega)
  · exact hlt (by omega)
  · exact heq (by omega)

/-! ## Doubles -/

theorem ofPlace_eq (place : Nat) : ofPlace negative place = Float.ofBits (UInt64.ofNat (signed negative place)) := rfl

theorem toBits_ofPlace (h : place ≤ infinityPlace) :
    (ofPlace negative place).toBits = UInt64.ofNat (signed negative place) := by
  show UInt64.ofBitVec (UnpackedFloat.pack .binary64 (UnpackedFloat.unpack .binary64
    (BitVec.ofNat Format.binary64.numBits (signed negative place)))) = _
  rw [(unpacked_spec negative h).1, (unpacked_spec negative h).2]
  rfl

end

theorem signed_mod (bits : UInt64) :
    signed (signBit ≤ bits.toNat) (bits.toNat % signBit) = bits.toNat := by
  have hlt := bits.toNat_lt
  unfold signed
  rw [signBit]
  split <;> simp at * <;> omega

theorem signed_place (x : Float) : signed (isNegative x) (place x) = x.toBits.toNat := signed_mod x.toBits

theorem toBits_eq (x : Float) :
    x.toBits.toBitVec = BitVec.ofNat Format.binary64.numBits (signed (isNegative x) (place x)) := by
  rw [signed_place]
  exact (BitVec.ofNat_toNat 64 x.toBits.toBitVec).symm

theorem unpack_toModel (x : Float) (h : place x ≤ infinityPlace) :
    x.toModel.unpack = unpacked (isNegative x) (place x) := by
  rw [← (unpacked_spec _ h).1, ← toBits_eq]
  rfl

theorem ext_toBits {x y : Float} (h : x.toBits = y.toBits) : x = y := by
  obtain ⟨⟨bits, hb⟩⟩ := x
  obtain ⟨⟨bits', hb'⟩⟩ := y
  cases h
  rfl

theorem ofPlace_place (x : Float) (h : place x ≤ infinityPlace) : ofPlace (isNegative x) (place x) = x := by
  refine ext_toBits ?_
  rw [toBits_ofPlace _ h, signed_place, UInt64.ofNat_toNat]

theorem place_lt (x : Float) : place x < signBit := Nat.mod_lt _ (by decide)

theorem eq_nan (x : Float) (h : infinityPlace < place x) : x = nan := by
  obtain ⟨hbinade, hrest⟩ := nan_fields h (place_lt x)
  have hbits := (packComponents_eq (isNegative x) (place_lt x)).trans (toBits_eq x).symm
  have hvalid : x.toBits.toBitVec = packedNaN .binary64 := by
    refine x.toModel.valid.eq_packedNaN ?_ ?_
    · refine (congrArg unpackExponent hbits.symm).trans ?_
      rw [unpackExponent_packComponents, hbinade]
      rfl
    · exact fun hzero => hrest <| unpackMantissa_packComponents.symm.trans <|
        (congrArg unpackMantissa hbits).trans hzero
  exact ext_toBits (UInt64.toBitVec_inj.1 (hvalid.trans (by decide)))

theorem isNaN_iff (x : Float) : x.isNaN = true ↔ infinityPlace < place x := by
  rcases Nat.lt_or_ge infinityPlace (place x) with hnan | hle
  · rw [eq_nan x hnan]
    decide
  · have hfalse : x.isNaN = false := by
      show x.toModel.unpack.isNaN = false
      rw [unpack_toModel x hle, unpacked]
      split_ifs <;> rfl
    rw [hfalse]
    exact ⟨nofun, fun h => by omega⟩

/-- Every pattern that stands for a number is the pattern of a double. -/
theorem toBits_ofBits (bits : UInt64) (h : (Float.ofBits bits).isNaN = false) : (Float.ofBits bits).toBits = bits := by
  have hbits : UInt64.ofNat (signed (signBit ≤ bits.toNat) (bits.toNat % signBit)) = bits := by
    rw [signed_mod, UInt64.ofNat_toNat]
  rcases Nat.lt_or_ge infinityPlace (bits.toNat % signBit) with hnan | hle
  · have hunpack : UnpackedFloat.unpack .binary64 bits.toBitVec = .notANumber := by
      rw [← unpack_notANumber (signBit ≤ bits.toNat) hnan (Nat.mod_lt _ (by decide)), signed_mod]
      exact congrArg _ (BitVec.ofNat_toNat 64 bits.toBitVec).symm
    have htrue : (Float.ofBits bits).isNaN = true := by
      show (UnpackedFloat.unpack .binary64 (UnpackedFloat.pack .binary64
        (UnpackedFloat.unpack .binary64 bits.toBitVec))).isNaN = true
      rw [hunpack]
      rfl
    rw [htrue] at h
    cases h
  · have := toBits_ofPlace (signBit ≤ bits.toNat) hle
    rwa [ofPlace_eq, hbits] at this

/-! ## Order -/

theorem unpack_ofPlace (negative : Bool) {place : Nat} (h : place ≤ infinityPlace) :
    (ofPlace negative place).toModel.unpack = unpacked negative place := by
  have hbits : (ofPlace negative place).toBits.toBitVec =
      BitVec.ofNat Format.binary64.numBits (signed negative place) :=
    congrArg UInt64.toBitVec (toBits_ofPlace negative h)
  rw [← (unpacked_spec negative h).1, ← hbits]
  rfl

theorem abs_eq (x : Float) (h : place x ≤ infinityPlace) : x.abs = ofPlace false (place x) := by
  refine ext_toBits ?_
  rw [toBits_ofPlace false h]
  show UInt64.ofBitVec (UnpackedFloat.pack .binary64 x.toModel.unpack.abs) = _
  rw [unpack_toModel x h, abs_unpacked, (unpacked_spec false h).2]
  rfl

theorem le_iff (x y : Float) : x ≤ y ↔ (x.toModel.unpack.compare y.toModel.unpack).any (·.isLE) = true :=
  decide_eq_true_iff

theorem lt_iff (x y : Float) : x < y ↔ x.toModel.unpack.compare y.toModel.unpack = some .lt :=
  decide_eq_true_iff.trans beq_iff_eq

theorem compare_notANumber (x : UnpackedFloat) : x.compare .notANumber = none := by
  cases x <;> rfl

theorem unpack_abs (x : Float) (h : infinityPlace < place x) : x.abs.toModel.unpack = .notANumber := by
  rw [eq_nan x h]
  rfl

theorem le_abs_iff {least : Nat} (h : least ≤ infinityPlace) (x : Float) :
    ofPlace false least ≤ x.abs ↔ least ≤ place x ∧ place x ≤ infinityPlace := by
  rw [le_iff]
  rcases Nat.lt_or_ge infinityPlace (place x) with hnan | hle
  · rw [unpack_abs x hnan, compare_notANumber]
    exact ⟨nofun, fun hp => by omega⟩
  · rw [abs_eq x hle, unpack_ofPlace false h, unpack_ofPlace false hle, compare_unpacked h hle, Option.any_some,
      Nat.isLE_compare]
    exact ⟨fun hp => ⟨hp, hle⟩, fun hp => hp.1⟩

theorem abs_lt_iff {bound : Nat} (h : bound ≤ infinityPlace) (x : Float) :
    x.abs < ofPlace false bound ↔ place x < bound := by
  rw [lt_iff]
  rcases Nat.lt_or_ge infinityPlace (place x) with hnan | hle
  · rw [unpack_abs x hnan]
    exact ⟨nofun, fun hp => by omega⟩
  · rw [abs_eq x hle, unpack_ofPlace false h, unpack_ofPlace false hle, compare_unpacked hle h, Option.some_inj,
      Nat.compare_eq_lt]

/-- Both zeros are equal to zero, and nothing else is. -/
theorem beq_zero_iff (x : Float) : (x == 0) = true ↔ place x = 0 := by
  have hbeq : (x == 0) = true ↔ x.toModel.unpack.compare (.zero .positive) = some .eq :=
    beq_iff_eq (a := x.toModel.unpack.compare (.zero .positive))
  rw [hbeq]
  rcases Nat.lt_or_ge infinityPlace (place x) with hnan | hle
  · rw [eq_nan x hnan]
    exact ⟨nofun, fun hp => by cases hp⟩
  · rw [unpack_toModel x hle, unpacked]
    split_ifs with hinf hpos
    · have hne : place x ≠ 0 := hinf ▸ by decide
      cases isNegative x <;> exact ⟨nofun, fun hp => absurd hp hne⟩
    · cases isNegative x <;> exact ⟨nofun, fun hp => by omega⟩
    · exact ⟨fun _ => by omega, fun _ => rfl⟩

/-- The place of the double nearest to a thousandth. -/
def thousandthPlace : Nat := 4562254508917369340

def tenMillionPlace : Nat := 4711630319722168320

theorem thousandth_eq : (1e-3 : Float) = ofPlace false thousandthPlace := by decide +kernel

theorem tenMillion_eq : (1e7 : Float) = ofPlace false tenMillionPlace := by decide +kernel

end Binary64
end Calculator
