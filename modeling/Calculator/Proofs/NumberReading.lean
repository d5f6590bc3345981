import Calculator.Proofs.FaultPlace
import Calculator.Proofs.Numerals
/-!
# Proofs.NumberReading — which texts are read as numbers, and as which

A text is read just when it is a numeral with white space around it, and then as the double nearest to what the numeral
denotes; any other text is refused as it stands.  The text of an operand holds digits and points and maybe a minus sign
before them, so it is a numeral just when it has a digit and no more than one point (`Number.read_numeral`).
-/
namespace Calculator

/-! ## White space around a numeral -/

def Blank (text : List Char) : Prop := ∀ c ∈ text, Character.isWhiteSpace c = true

instance (text : List Char) : Decidable (Blank text) := List.decidableBAll _ text

theorem Blank.dropWhile_append {lead : List Char} (h : Blank lead) (text : List Char) :
    (lead ++ text).dropWhile Character.isWhiteSpace = text.dropWhile Character.isWhiteSpace :=
  List.dropWhile_append_of_pos h

theorem Blank.reverse {text : List Char} (h : Blank text) : Blank text.reverse :=
  fun c hc => h c (List.mem_reverse.1 hc)

theorem Character.not_isWhiteSpace_of_toLower {c : Char} (h : isWhiteSpace c.toLower = false) :
    isWhiteSpace c = false := by
  by_cases hc : 65 ≤ c.toNat ∧ c.toNat ≤ 90
  · exact not_isWhiteSpace (by omega) (by omega)
  · have hlower : c.toLower = c := by
      unfold Char.toLower
      exact dif_neg hc
    rwa [hlower] at h

namespace Number

theorem trim_append {lead core trail : List Char} (hl : Blank lead) (hc : Unspaced core) (ht : Blank trail) :
    trim (lead ++ core ++ trail) = core := by
  rw [trim, List.append_assoc, hl.dropWhile_append]
  cases core with
  | nil =>
    rw [List.nil_append, List.dropWhile_eq_nil_iff.2 ht]
    rfl
  | cons c core =>
    have hfirst : ¬ Character.isWhiteSpace c = true := by
      rw [hc c List.mem_cons_self]
      exact Bool.false_ne_true
    rw [List.cons_append, List.dropWhile_cons_of_neg hfirst, ← List.cons_append, List.reverse_append,
      ht.reverse.dropWhile_append, hc.reverse.dropWhile_eq, List.reverse_reverse]

theorem exists_trim (text : List Char) :
    ∃ lead trail, text = lead ++ trim text ++ trail ∧ Blank lead ∧ Blank trail := by
  let rest := text.dropWhile Character.isWhiteSpace
  have hblank (l : List Char) : Blank (l.takeWhile Character.isWhiteSpace) := List.all_eq_true.1 List.all_takeWhile
  refine ⟨_, (rest.reverse.takeWhile Character.isWhiteSpace).reverse, ?_, hblank text, (hblank _).reverse⟩
  rw [List.append_assoc, trim, ← List.reverse_append, List.takeWhile_append_dropWhile, List.reverse_reverse,
    List.takeWhile_append_dropWhile]

theorem unspaced_of_toLower {word : List Char} (h : Unspaced (word.map Char.toLower)) : Unspaced word :=
  fun _ hc => Character.not_isWhiteSpace_of_toLower (h _ (List.mem_map_of_mem hc))

theorem unspaced_of_digits {digits : List Char} (hd : ∀ c ∈ digits, c.isDigit = true) : Unspaced digits :=
  fun c hc => Lexeme.not_isWhiteSpace_of_continues (by rw [Lexeme.continues, hd c hc]; rfl)

theorem IsSign.unspaced {sign : List Char} {negative : Bool} (h : IsSign sign negative) : Unspaced sign := by
  cases h <;> decide

theorem IsPointed.unspaced {figures whole fraction : List Char} (h : IsPointed figures whole fraction)
    (hd : ∀ c ∈ whole ++ fraction, c.isDigit = true) : Unspaced figures := by
  obtain ⟨hwhole, hfraction⟩ := List.forall_mem_append.1 hd
  cases h with
  | whole => exact unspaced_of_digits hwhole
  | pointed => exact (unspaced_of_digits hwhole).append ((unspaced_of_digits hfraction).cons (by decide))

theorem IsExponent.unspaced {tail : List Char} {e : Int} (h : IsExponent tail e) : Unspaced tail := by
  cases h with
  | none => exact nofun
  | marked hm hs hd hne =>
    exact (hs.unspaced.append (unspaced_of_digits hd)).cons (by rcases hm with rfl | rfl <;> decide)

theorem Denotes.unspaced {text : List Char} {negative : Bool} {d : Denoted} (h : Denotes text negative d) :
    Unspaced text := by
  cases h with
  | infinity hs hw =>
    exact hs.unspaced.append (unspaced_of_toLower (hw.elim (fun h => h ▸ by decide) fun h => h ▸ by decide))
  | nan hs hw => exact hs.unspaced.append (unspaced_of_toLower (hw ▸ by decide))
  | number hs hf hd hne he => exact hs.unspaced.append ((hf.unspaced hd).append he.unspaced)

/-- Whether a text is a numeral with white space around it. -/
def Writes (text : List Char) (negative : Bool) (d : Denoted) : Prop :=
  ∃ lead numeral trail, text = lead ++ numeral ++ trail ∧ Blank lead ∧ Blank trail ∧ Denotes numeral negative d

theorem writes_iff {text : List Char} {negative : Bool} {d : Denoted} :
    Writes text negative d ↔ Denotes (trim text) negative d := by
  constructor
  · rintro ⟨lead, numeral, trail, rfl, hl, ht, h⟩
    rwa [trim_append hl h.unspaced ht]
  · intro h
    obtain ⟨lead, trail, htext, hl, ht⟩ := exists_trim text
    exact ⟨lead, _, trail, htext, hl, ht, h⟩

theorem read_of_writes {text : String} {negative : Bool} {d : Denoted} (h : Writes text.toList negative d) :
    ∃ x, read text = .ok x ∧ d.Suits negative x := by
  obtain ⟨m, hm, rfl⟩ := denotes_iff.1 (writes_iff.1 h)
  exact ⟨_, by rw [read, hm], suits_toFloat ⟨negative, m⟩⟩

theorem read_eq_error {text : String} {fault : Fault} :
    read text = .error fault ↔ fault = .malformedNumber text ∧ ¬ ∃ negative d, Writes text.toList negative d := by
  constructor
  · intro h
    refine ⟨fault_of_read h, ?_⟩
    rintro ⟨negative, d, hw⟩
    obtain ⟨x, hx, -⟩ := read_of_writes hw
    cases hx.symm.trans h
  · rintro ⟨rfl, h⟩
    cases hn : Numeral.ofText? (trim text.toList) with
    | none => rw [read, hn]
    | some numeral => exact absurd ⟨_, _, writes_iff.2 (denotes_iff.2 ⟨_, hn, rfl⟩)⟩ h

/-! ## The text of an operand -/

theorem isDigit_of_continues {c : Char} (h : Lexeme.number.continues c = true) (hp : c ≠ '.') : c.isDigit = true := by
  rw [Lexeme.continues, Bool.or_eq_true, beq_iff_eq] at h
  exact h.resolve_right hp

theorem mem_span {span : List Char} (hs : Lexeme.number.covers span = true) :
    ∀ c ∈ span, c.isDigit = true ∨ c = '.' ∨ c = '-' := by
  obtain ⟨first, rest, rfl, hfirst, hrest⟩ := Lexeme.covers_iff.1 hs
  intro c hc
  rcases List.mem_cons.1 hc with rfl | hc
  · rw [Lexeme.starts, Bool.or_eq_true, beq_iff_eq] at hfirst
    exact hfirst.imp_right .inr
  · by_cases hp : c = '.'
    · exact .inr (.inl hp)
    · exact .inl (isDigit_of_continues (hrest c hc) hp)

theorem writes_span {span : List Char} (hs : Lexeme.number.covers span = true) {negative : Bool} {d : Denoted} :
    Writes (String.ofList span).toList negative d ↔ Denotes span negative d := by
  have hspan : Unspaced span := by
    intro c hc
    rcases mem_span hs c hc with hd | rfl | rfl
    · exact Lexeme.not_isWhiteSpace_of_continues (by rw [Lexeme.continues, hd]; rfl)
    · decide
    · decide
  rw [String.toList_ofList, writes_iff, trim_eq hspan]

theorem count_point_of_digits {digits : List Char} (hd : ∀ c ∈ digits, c.isDigit = true) : digits.count '.' = 0 :=
  List.count_eq_zero.2 (not_mem_of_digits hd rfl)

theorem IsPointed.any_isDigit {figures whole fraction : List Char} (hf : IsPointed figures whole fraction)
    (hd : ∀ c ∈ whole ++ fraction, c.isDigit = true) (hne : whole ++ fraction ≠ []) :
    figures.any Char.isDigit = true ∧ figures.count '.' ≤ 1 := by
  obtain ⟨hwhole, hfraction⟩ := List.forall_mem_append.1 hd
  obtain ⟨c, rest, hcons⟩ := List.exists_cons_of_ne_nil hne
  have hc : c ∈ whole ++ fraction := hcons ▸ List.mem_cons_self
  have hany : (whole ++ fraction).any Char.isDigit = true := List.any_eq_true.2 ⟨c, hc, hd c hc⟩
  rw [List.any_append] at hany
  cases hf with
  | whole =>
    rw [count_point_of_digits hwhole]
    exact ⟨(Bool.or_false _).symm.trans hany, Nat.zero_le _⟩
  | pointed =>
    rw [List.count_append, List.count_cons_self, count_point_of_digits hwhole, count_point_of_digits hfraction,
      List.any_append, List.any_cons]
    exact ⟨hany, Nat.le_refl _⟩

theorem exists_pointed {body : List Char} (hb : ∀ c ∈ body, Lexeme.number.continues c = true)
    (hdigit : body.any Char.isDigit = true) (hpoint : body.count '.' ≤ 1) :
    ∃ whole fraction, IsPointed body whole fraction ∧ (∀ c ∈ whole ++ fraction, c.isDigit = true) ∧
      whole ++ fraction ≠ [] := by
  have hdigits {l : List Char} (hl : ∀ c ∈ l, c ∈ body) (hp : '.' ∉ l) : ∀ c ∈ l, c.isDigit = true :=
    fun c hc => isDigit_of_continues (hb c (hl c hc)) fun h => hp (h ▸ hc)
  have hne {l : List Char} (h : l.any Char.isDigit = true) : l ≠ [] := by
    rintro rfl
    cases h
  by_cases hp : '.' ∈ body
  · obtain ⟨whole, fraction, rfl⟩ := List.append_of_mem hp
    rw [List.count_append, List.count_cons_self] at hpoint
    rw [List.any_append, List.any_cons] at hdigit
    have hwhole := hdigits (fun _ => List.mem_append_left _) (List.count_eq_zero.1 (by omega : whole.count '.' = 0))
    have hfraction := hdigits (fun _ hc => List.mem_append_right whole (List.mem_cons_of_mem '.' hc))
      (List.count_eq_zero.1 (by omega : fraction.count '.' = 0))
    exact ⟨whole, fraction, .pointed _ _, List.forall_mem_append.2 ⟨hwhole, hfraction⟩,
      hne (List.any_append.trans hdigit)⟩
  · exact ⟨body, [], .whole body, by rw [List.append_nil]; exact hdigits (fun _ => id) hp,
      by rw [List.append_nil]; exact hne hdigit⟩

/-- **A numeral without letters has a digit and at most one point.** -/
theorem denoted_of_span {span : List Char} (hs : Lexeme.number.covers span = true) {negative : Bool} {d : Denoted}
    (h : Denotes span negative d) :
    (∃ v, d = .number v) ∧ span.any Char.isDigit = true ∧ span.count '.' ≤ 1 := by
  have hchars := mem_span hs
  -- each of the words has this letter in it
  have hletter {sign word : List Char} (hspan : ∀ c ∈ sign ++ word, c.isDigit = true ∨ c = '.' ∨ c = '-')
      (hw : 'n' ∈ word.map Char.toLower) : False := by
    obtain ⟨c, hc, hlower⟩ := List.mem_map.1 hw
    rcases hspan c (List.mem_append_right sign hc) with hd | rfl | rfl
    · rw [toLower_of_isDigit hd] at hlower
      subst hlower
      cases hd
    · cases hlower
    · cases hlower
  cases h with
  | infinity _ hw =>
    exact (hletter hchars (hw.elim (fun h => h ▸ by decide) fun h => h ▸ by decide)).elim
  | nan _ hw => exact (hletter hchars (hw ▸ by decide)).elim
  | @number sign figures whole fraction tail negative e hsign hf hd hne he =>
    refine ⟨⟨_, rfl⟩, ?_⟩
    cases he with
    | marked hm =>
      rcases hm with rfl | rfl
      · exact absurd (hchars 'e' (by simp)) (by decide)
      · exact absurd (hchars 'E' (by simp)) (by decide)
    | none =>
      have hcount : sign.count '.' = 0 := by cases hsign <;> rfl
      obtain ⟨hdigit, hpoint⟩ := hf.any_isDigit hd hne
      rw [List.append_nil, List.any_append, hdigit, Bool.or_true, List.count_append, hcount, Nat.zero_add]
      exact ⟨rfl, hpoint⟩

theorem exists_denotes_span {span : List Char} (hs : Lexeme.number.covers span = true)
    (hdigit : span.any Char.isDigit = true) (hpoint : span.count '.' ≤ 1) :
    ∃ negative v, Denotes span negative (.number v) := by
  obtain ⟨c, rest, rfl, hc, hrest⟩ := Lexeme.covers_iff.1 hs
  have hnumber {sign body : List Char} {negative : Bool} (hsign : IsSign sign negative)
      (hb : ∀ c ∈ body, Lexeme.number.continues c = true) (hdigit : body.any Char.isDigit = true)
      (hpoint : body.count '.' ≤ 1) : ∃ v, Denotes (sign ++ body) negative (.number v) := by
    obtain ⟨whole, fraction, hf, hd, hne⟩ := exists_pointed hb hdigit hpoint
    have h := Denotes.number hsign hf hd hne .none
    rw [List.append_nil] at h
    exact ⟨_, h⟩
  rw [Lexeme.starts, Bool.or_eq_true, beq_iff_eq] at hc
  rcases hc with hc | rfl
  · have hb : ∀ d ∈ c :: rest, Lexeme.number.continues d = true :=
      List.forall_mem_cons.2 ⟨by rw [Lexeme.continues, hc]; rfl, hrest⟩
    exact ⟨false, hnumber .none hb hdigit hpoint⟩
  · exact ⟨true, hnumber .minus hrest hdigit (by simpa using hpoint)⟩

/-! ## Reading -/

/-- **Just the numerals are read, each as the double nearest to what it denotes**; and the text of an operand is one of
them just when it has a digit and no second point. -/
theorem read_numeral (text : String) (limit : Nat) (outer : List Machine.Pending) (here : Machine.Pending) {c : Char}
    (hc : Lexeme.number.starts c = true) (rest : List Char) :
    (∀ negative d, Writes text.toList negative d → ∃ x, read text = .ok x ∧ d.Suits negative x) ∧
      (∀ fault, read text = .error fault ↔
        fault = .malformedNumber text ∧ ¬ ∃ negative d, Writes text.toList negative d) ∧
      let (span, unread) := Lexeme.number.split (c :: rest)
      if span.any Char.isDigit = true ∧ span.count '.' ≤ 1 then
        ∃ x, read (String.ofList span) = .ok x ∧ x.isNaN = false ∧
          Machine.operandStep limit outer here (c :: rest) = Machine.supply outer here x unread
      else
        Machine.operandStep limit outer here (c :: rest) =
          .stop (.error (.malformedNumber (String.ofList span))) unread := by
  refine ⟨fun negative d => read_of_writes, fun fault => read_eq_error, ?_⟩
  obtain ⟨span, unread, htext, hspan, hends, hsplit⟩ := Lexeme.exists_split rest hc
  rw [hsplit, htext]
  dsimp only
  split
  · rename_i hnumeral
    obtain ⟨negative, v, hv⟩ := exists_denotes_span hspan hnumeral.1 hnumeral.2
    obtain ⟨x, hx, hrounds, -⟩ := read_of_writes ((writes_span hspan).2 hv)
    exact ⟨x, hx, hrounds.isNaN_eq_false, Machine.operandStep_of_number limit outer here hspan hends hx⟩
  · rename_i hnumeral
    refine Machine.operandStep_of_malformed limit outer here hspan hends (read_eq_error.2 ⟨rfl, ?_⟩)
    rintro ⟨negative, d, hd⟩
    exact hnumeral (denoted_of_span hspan ((writes_span hspan).1 hd)).2

/-- Halfway between two doubles, with a point at the end; and an operand without a digit before its point. -/
theorem read_numeral_halfway :
    let text := "\t9007199254740993. "
    let denoted := Denoted.number 9007199254740993
    Lexeme.number.starts '-' = true ∧ Writes text.toList false denoted ∧
      (∃ x, read text = .ok x ∧ denoted.Suits false x) ∧ (read text).map Float.toBits = .ok 0x4340000000000000 ∧
      Lexeme.number.split "-.5*x".toList = ("-.5".toList, "*x".toList) ∧
      ∃ x, read "-.5" = .ok x ∧ x.isNaN = false ∧
        Machine.operandStep 0 [] {} "-.5*x".toList = Machine.supply [] {} x "*x".toList := by
  intro text denoted
  have hc : Lexeme.number.starts '-' = true := by decide
  have hwrites : Writes text.toList false denoted := by
    refine ⟨['\t'], "9007199254740993.".toList, [' '], by decide, by decide, by decide, ?_⟩
    have hall : ∀ c ∈ "9007199254740993".toList ++ [], c.isDigit = true := List.all_eq_true.1 (by decide)
    have h := Denotes.number .none (.pointed _ _) hall (by decide) .none
    have hdigits : Nat.ofDigitChars 10 "9007199254740993".toList 0 = 9007199254740993 := by decide +kernel
    rw [hdigits, Nat.ofDigitChars_nil, Nat.cast_zero, zero_div, add_zero, zpow_zero, mul_one] at h
    exact h
  obtain ⟨hread, -, hspan⟩ := read_numeral text 0 [] {} hc ".5*x".toList
  exact ⟨hc, hwrites, hread _ _ hwrites, by decide +kernel, by decide, hspan⟩

example : ["1.", "-.5", "007", "-", "-.", "1.2.3"].map (fun text => (read text).isOk) =
    [true, true, true, false, false, false] := by decide +kernel

end Number
end Calculator
