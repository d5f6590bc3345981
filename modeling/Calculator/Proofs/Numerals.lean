import Calculator.Proofs.NearestDouble
import Calculator.Proofs.RoundTrip
/-!
# Proofs.Numerals — the texts that write numbers, and the doubles that they write

The grammar of numerals is `Number.Denotes`, which says what each numeral denotes: a rational number, infinity or no
number.  The numerals are what the reader accepts (`Number.denotes_iff`), and each is read as the double nearest to what
it denotes, with its sign (`Number.suits_toFloat`).
-/
namespace Calculator
namespace Number
open Binary64 (RoundsTo withSign)

/-! ## The grammar of numerals -/

/-- What a numeral denotes, its sign apart. -/
inductive Denoted where
  | infinity
  | nan
  | number (v : ℚ)

inductive IsSign : List Char → Bool → Prop where
  | none : IsSign [] false
  | plus : IsSign ['+'] false
  | minus : IsSign ['-'] true

/-- The end of a numeral, and the power of ten that it stands for. -/
inductive IsExponent : List Char → Int → Prop where
  | none : IsExponent [] 0
  | marked {mark : Char} {sign digits : List Char} {negative : Bool} (hm : mark = 'e' ∨ mark = 'E')
    (hs : IsSign sign negative) (hd : ∀ c ∈ digits, c.isDigit = true) (hne : digits ≠ []) :
    IsExponent (mark :: (sign ++ digits))
      (if negative then -(Nat.ofDigitChars 10 digits 0 : Int) else Nat.ofDigitChars 10 digits 0)

/-- Digits on either side of a point.  Without a point there are none behind it. -/
inductive IsPointed : List Char → List Char → List Char → Prop where
  | whole (whole : List Char) : IsPointed whole whole []
  | pointed (whole fraction : List Char) : IsPointed (whole ++ '.' :: fraction) whole fraction

/-- The numerals, whether they begin with a minus sign, and what they denote. -/
inductive Denotes : List Char → Bool → Denoted → Prop where
  | infinity {sign word : List Char} {negative : Bool} (hs : IsSign sign negative)
    (hw : word.map Char.toLower = "inf".toList ∨ word.map Char.toLower = "infinity".toList) :
    Denotes (sign ++ word) negative .infinity
  | nan {sign word : List Char} {negative : Bool} (hs : IsSign sign negative)
    (hw : word.map Char.toLower = "nan".toList) : Denotes (sign ++ word) negative .nan
  | number {sign figures whole fraction tail : List Char} {negative : Bool} {e : Int} (hs : IsSign sign negative)
    (hf : IsPointed figures whole fraction) (hd : ∀ c ∈ whole ++ fraction, c.isDigit = true)
    (hne : whole ++ fraction ≠ []) (he : IsExponent tail e) :
    Denotes (sign ++ (figures ++ tail)) negative (.number
      ((Nat.ofDigitChars 10 whole 0 + Nat.ofDigitChars 10 fraction 0 / 10 ^ fraction.length) * 10 ^ e))

/-! ## The reader accepts the numerals -/

theorem IsSign.splitSign_append {sign rest : List Char} {negative : Bool} (hs : IsSign sign negative)
    (h : ∀ c ∈ rest.head?, c ≠ '+' ∧ c ≠ '-') : splitSign (sign ++ rest) = (negative, rest) := by
  cases hs with
  | plus | minus => rfl
  | none =>
    rw [List.nil_append]
    unfold splitSign
    split
    · exact absurd rfl (h '-' rfl).2
    · exact absurd rfl (h '+' rfl).1
    · rfl

theorem exists_isSign (text : List Char) :
    ∃ sign, IsSign sign (splitSign text).1 ∧ text = sign ++ (splitSign text).2 := by
  unfold splitSign
  split
  · exact ⟨['-'], .minus, rfl⟩
  · exact ⟨['+'], .plus, rfl⟩
  · exact ⟨[], .none, rfl⟩

theorem ne_sign_of_isDigit {c : Char} (h : c.isDigit = true) : c ≠ '+' ∧ c ≠ '-' := by
  constructor <;> rintro rfl <;> cases h

theorem readExponent?_eq_some {tail : List Char} {e : Int} : readExponent? tail = some e ↔ IsExponent tail e := by
  constructor
  · intro h
    cases tail with
    | nil =>
      cases h
      exact .none
    | cons mark rest =>
      obtain ⟨sign, hs, hrest⟩ := exists_isSign rest
      rcases hsplit : splitSign rest with ⟨negative, digits⟩
      rw [hsplit] at hs hrest
      simp only [readExponent?, hsplit] at h
      split at h
      · rename_i hcond
        obtain ⟨hm, hne, hd⟩ := hcond
        cases h
        rw [hrest]
        exact .marked hm hs (List.all_eq_true.1 hd) hne
      · cases h
  · intro h
    cases h with
    | none => rfl
    | @marked mark sign digits negative hm hs hd hne =>
      have hsplit : splitSign (sign ++ digits) = (negative, digits) :=
        hs.splitSign_append fun c hc => ne_sign_of_isDigit (hd c (List.mem_of_mem_head? hc))
      simp only [readExponent?, hsplit]
      rw [if_pos ⟨hm, hne, List.all_eq_true.2 hd⟩]

theorem IsExponent.head {tail : List Char} {e : Int} (h : IsExponent tail e) :
    ∀ c ∈ tail.head?, c.isDigit = false ∧ c ≠ '.' := by
  cases h with
  | none => nofun
  | marked hm hs hd hne =>
    intro c hc
    cases hc
    rcases hm with rfl | rfl <;> decide

/-- Digits with a point are as much as all of them less as many powers of ten as are behind it. -/
theorem value_digits (whole fraction : List Char) (e : Int) :
    Decimal.value ⟨Nat.ofDigitChars 10 (whole ++ fraction) 0, e - fraction.length⟩ =
      (Nat.ofDigitChars 10 whole 0 + Nat.ofDigitChars 10 fraction 0 / 10 ^ fraction.length) * 10 ^ e := by
  have hne : (10 : ℚ) ^ fraction.length ≠ 0 := by positivity
  rw [Decimal.value, Nat.ofDigitChars_append, Nat.ofDigitChars_eq_ofDigitChars_zero, zpow_sub₀ (by norm_num),
    zpow_natCast]
  push_cast
  field_simp

/-- Where no point follows the first digits, all that is left must be an exponent. -/
theorem readDecimal?_of_pointless {body whole rest : List Char} (hwhole : body.takeWhile Char.isDigit = whole)
    (hrest : body.dropWhile Char.isDigit = rest) (hp : ∀ c ∈ rest.head?, c ≠ '.') :
    readDecimal? body =
      if whole.isEmpty then none else (readExponent? rest).map (⟨Nat.ofDigitChars 10 whole 0, ·⟩) := by
  unfold readDecimal?
  rw [hwhole, hrest]
  split
  rename_i hmatch
  split at hmatch
  · exact absurd rfl (hp '.' rfl)
  · cases hmatch
    simp

theorem readDecimal?_of_pointed {figures whole fraction tail : List Char} {e : Int}
    (hf : IsPointed figures whole fraction) (hd : ∀ c ∈ whole ++ fraction, c.isDigit = true)
    (hne : whole ++ fraction ≠ []) (he : IsExponent tail e) :
    readDecimal? (figures ++ tail) = some ⟨Nat.ofDigitChars 10 (whole ++ fraction) 0, e - fraction.length⟩ := by
  have hread := readExponent?_eq_some.2 he
  cases hf with
  | pointed =>
    rw [List.append_assoc, List.cons_append, Figures.readDecimal?_append hd hne fun c hc => (he.head c hc).1, hread]
    rfl
  | whole =>
    rw [List.append_nil] at hd hne
    obtain ⟨htake, hdrop⟩ := Lexeme.takeWhile_append_of_ends hd fun c hc => (he.head c hc).1
    rw [readDecimal?_of_pointless htake hdrop fun c hc => (he.head c hc).2, if_neg (mt List.isEmpty_iff.1 hne), hread,
      List.append_nil, List.length_nil, Nat.cast_zero, sub_zero]
    rfl

/-- **The reader accepts nothing but digits around a point** with an exponent after them. -/
theorem exists_pointed_of_read {body : List Char} {d : Decimal} (h : readDecimal? body = some d) :
    ∃ figures whole fraction tail e, body = figures ++ tail ∧ IsPointed figures whole fraction ∧
      (∀ c ∈ whole ++ fraction, c.isDigit = true) ∧ whole ++ fraction ≠ [] ∧ IsExponent tail e ∧
      d = ⟨Nat.ofDigitChars 10 (whole ++ fraction) 0, e - fraction.length⟩ := by
  have hbody : body.takeWhile Char.isDigit ++ body.dropWhile Char.isDigit = body := List.takeWhile_append_dropWhile
  have hwhole : ∀ c ∈ body.takeWhile Char.isDigit, c.isDigit = true := List.all_eq_true.1 List.all_takeWhile
  have haccepted {digits tail : List Char} {f : Int → Decimal}
      (h : (if digits.isEmpty then none else (readExponent? tail).map f) = some d) :
      digits ≠ [] ∧ ∃ e, IsExponent tail e ∧ d = f e := by
    split at h
    · cases h
    · rename_i hne
      obtain ⟨e, he, hd⟩ := Option.map_eq_some_iff.1 h
      exact ⟨mt List.isEmpty_iff.2 hne, e, readExponent?_eq_some.1 he, hd.symm⟩
  by_cases hp : ∀ c ∈ (body.dropWhile Char.isDigit).head?, c ≠ '.'
  · rw [readDecimal?_of_pointless rfl rfl hp] at h
    obtain ⟨hne, e, he, hd⟩ := haccepted h
    rw [← List.append_nil (body.takeWhile _)] at hwhole hne
    exact ⟨_, _, [], _, e, hbody.symm, .whole _, hwhole, hne, he, by simpa using hd⟩
  · obtain ⟨rest, hrest⟩ : ∃ rest, body.dropWhile Char.isDigit = '.' :: rest := by
      rcases hrest : body.dropWhile Char.isDigit with _ | ⟨c, rest⟩
      · simp [hrest] at hp
      · exact ⟨rest, by simpa [hrest] using hp⟩
    simp only [readDecimal?, hrest] at h
    obtain ⟨hne, e, he, hd⟩ := haccepted h
    refine ⟨_, _, _, _, e, ?_, .pointed _ _, fun c hc => ?_, hne, he, hd⟩
    · rw [List.append_assoc, List.cons_append, List.takeWhile_append_dropWhile, ← hrest, hbody]
    · exact (List.mem_append.1 hc).elim (hwhole c) (List.all_eq_true.1 List.all_takeWhile c)

def Magnitude.denoted : Magnitude → Denoted
  | infinity => .infinity
  | nan => .nan
  | decimal value => .number value.value

theorem readWord?_of_pointed {figures whole fraction : List Char} (hf : IsPointed figures whole fraction)
    (hd : ∀ c ∈ whole ++ fraction, c.isDigit = true) (hne : whole ++ fraction ≠ []) (tail : List Char) :
    readWord? (figures ++ tail) = none ∧ ∀ c ∈ (figures ++ tail).head?, c ≠ '+' ∧ c ≠ '-' := by
  obtain ⟨c, rest, hcons, hc⟩ : ∃ c rest, figures ++ tail = c :: rest ∧ (c.isDigit = true ∨ c = '.') := by
    cases hf with
    | whole =>
      rw [List.append_nil] at hne hd
      obtain ⟨c, rest, rfl⟩ := List.exists_cons_of_ne_nil hne
      exact ⟨c, _, rfl, .inl (hd c List.mem_cons_self)⟩
    | pointed =>
      cases whole with
      | nil => exact ⟨'.', _, rfl, .inr rfl⟩
      | cons c whole => exact ⟨c, _, rfl, .inl (hd c List.mem_cons_self)⟩
  rw [hcons]
  rcases hc with hc | rfl
  · exact ⟨readWord?_of_digit hc, fun d hd => by cases hd; exact ne_sign_of_isDigit hc⟩
  · exact ⟨by simp [readWord?], fun d hd => by cases hd; decide⟩

theorem head_of_map_toLower {word : List Char} {first : Char} {rest : List Char}
    (h : word.map Char.toLower = first :: rest) (hf : first.isLower = true) :
    ∀ c ∈ word.head?, c ≠ '+' ∧ c ≠ '-' := by
  cases word with
  | nil => nofun
  | cons c word =>
    obtain rfl := (List.cons.inj h).1
    intro d hd
    cases hd
    constructor <;> rintro rfl <;> cases hf

/-- **The numerals are what the reader accepts.** -/
theorem denotes_iff {text : List Char} {negative : Bool} {d : Denoted} :
    Denotes text negative d ↔ ∃ m, Numeral.ofText? text = some ⟨negative, m⟩ ∧ m.denoted = d := by
  constructor
  · intro h
    cases h with
    | infinity hs hw =>
      have hsign := hs.splitSign_append (hw.elim (head_of_map_toLower · rfl) (head_of_map_toLower · rfl))
      refine ⟨.infinity, ?_, rfl⟩
      simp only [Numeral.ofText?, hsign, readWord?]
      rw [if_pos hw]
      rfl
    | nan hs hw =>
      have hsign := hs.splitSign_append (head_of_map_toLower hw rfl)
      refine ⟨.nan, ?_, rfl⟩
      simp only [Numeral.ofText?, hsign, readWord?, hw]
      rfl
    | @number sign figures whole fraction tail negative e hs hf hd hne he =>
      obtain ⟨hword, hhead⟩ := readWord?_of_pointed hf hd hne tail
      refine ⟨.decimal _, ?_, congrArg Denoted.number (value_digits whole fraction e)⟩
      simp only [Numeral.ofText?, hs.splitSign_append hhead, hword, readDecimal?_of_pointed hf hd hne he]
      rfl
  · rintro ⟨m, h, rfl⟩
    obtain ⟨sign, hs, htext⟩ := exists_isSign text
    rcases hsplit : splitSign text with ⟨negative', body⟩
    rw [hsplit] at hs htext
    simp only [Numeral.ofText?, hsplit] at h
    obtain ⟨m', hm, heq⟩ := Option.map_eq_some_iff.1 h
    cases heq
    rw [htext]
    cases hword : readWord? body with
    | some word =>
      rw [hword] at hm
      cases hm
      unfold readWord? at hword
      dsimp only at hword
      split at hword
      · cases hword
        exact .infinity hs ‹_›
      · split at hword
        · cases hword
          exact .nan hs ‹_›
        · cases hword
    | none =>
      rw [hword] at hm
      obtain ⟨value, hvalue, rfl⟩ := Option.map_eq_some_iff.1 hm
      obtain ⟨figures, whole, fraction, tail, e, rfl, hf, hd, hne, he, rfl⟩ := exists_pointed_of_read hvalue
      rw [Magnitude.denoted, value_digits]
      exact .number hs hf hd hne he

/-! ## The double -/

/-- Whether a double is what something denoted is read as. -/
def Denoted.Suits (negative : Bool) : Denoted → Float → Prop
  | infinity, x => x.isInf = true ∧ Binary64.isNegative x = negative
  | nan, x => x.isNaN = true
  | number v, x => RoundsTo (withSign negative v) x ∧ Binary64.isNegative x = negative

theorem suits_toFloat (n : Numeral) : n.magnitude.denoted.Suits n.negative n.toFloat := by
  obtain ⟨negative, magnitude⟩ := n
  cases magnitude with
  | infinity => exact ⟨Binary64.isInf_infinity negative, Binary64.isNegative_ofPlace negative (Nat.le_refl _)⟩
  | nan => exact (by decide : Binary64.nan.isNaN = true)
  | decimal d =>
    exact ⟨d.roundsTo negative, Binary64.isNegative_ofPlace negative d.nearestPlace_le⟩

end Number
end Calculator
