import Calculator.Proofs.Lookahead
import Calculator.Proofs.Outline
import Calculator.Proofs.RoundTrip
/-!
# Proofs.Spacing — white space is never read

No lexeme holds white space, and no sign of the grammar is white space, so no step reads any
(`Machine.Rule.reads_unspaced`).  A source that has some fails in front of the first of it, whatever stands behind, and
a source that can be evaluated has none.  Of an expression the white space is left out first, so that expressions that
differ by nothing else are evaluated alike (`evaluate_spacing`).
-/
namespace Calculator

open Relation (EqvGen ReflTransGen)

/-! ## What white space is not -/

/-- Sets of which no stretch of the one meets a stretch of the other. -/
def Character.Ranges.Apart (left right : Ranges) : Prop := ∀ r ∈ left, ∀ q ∈ right, r.2 < q.1 ∨ q.2 < r.1

instance (left right : Character.Ranges) : Decidable (left.Apart right) :=
  inferInstanceAs (Decidable (∀ r ∈ left, ∀ q ∈ right, r.2 < q.1 ∨ q.2 < r.1))

theorem Character.Ranges.Apart.contains_eq_false {left right : Ranges} (h : left.Apart right) (hl : left.Ascending)
    (hr : right.Ascending) {c : Nat} (hc : left.contains c = true) : right.contains c = false := by
  rw [Bool.eq_false_iff, ne_eq, contains_iff hr]
  rintro ⟨q, hq, hqc⟩
  obtain ⟨r, hr, hrc⟩ := (contains_iff hl c).1 hc
  have := h r hr q hq
  omega

theorem Character.not_isWhiteSpace_of_isAlphabetic {c : Char} (h : isAlphabetic c = true) : isWhiteSpace c = false :=
  Ranges.Apart.contains_eq_false (by decide +kernel) alphabeticRanges_ascending whiteSpaceRanges_ascending h

theorem Character.not_isWhiteSpace_of_isDecimalDigit {c : Char} (h : isDecimalDigit c = true) :
    isWhiteSpace c = false :=
  Ranges.Apart.contains_eq_false (by decide +kernel) decimalDigitRanges_ascending whiteSpaceRanges_ascending h

namespace Lexeme

theorem not_isWhiteSpace_of_starts : ∀ {kind : Lexeme} {c : Char}, kind.starts c = true →
    Character.isWhiteSpace c = false
  | name, _, h => Character.not_isWhiteSpace_of_isAlphabetic h
  | number, c, h => by
    rw [starts, Bool.or_eq_true, beq_iff_eq] at h
    rcases h with h | rfl
    · exact not_isWhiteSpace_of_continues (by rw [continues, h]; rfl)
    · decide

theorem unspaced_of_covers {kind : Lexeme} {span : List Char} (hs : kind.covers span = true) : Unspaced span := by
  obtain ⟨c, rest, rfl, hc, hrest⟩ := covers_iff.1 hs
  refine Unspaced.cons (not_isWhiteSpace_of_starts hc) fun d hd => ?_
  have hd := hrest d hd
  cases kind with
  | number => exact not_isWhiteSpace_of_continues hd
  | name =>
    rcases Bool.or_eq_true _ _ ▸ hd with hd | hd
    · exact Character.not_isWhiteSpace_of_isAlphabetic hd
    · exact Character.not_isWhiteSpace_of_isDecimalDigit hd

end Lexeme

/-! ## Texts of one line -/

/-- Whether there is no line feed in a text. -/
def Unbroken (text : String) : Prop := '\n' ∉ text.toList

instance (text : String) : Decidable (Unbroken text) := inferInstanceAs (Decidable ('\n' ∉ text.toList))

namespace Unbroken

theorem append {left right : String} (hl : Unbroken left) (hr : Unbroken right) : Unbroken (left ++ right) := by
  rw [Unbroken, String.toList_append, List.mem_append]
  exact fun h => h.elim hl hr

theorem of_unspaced {text : String} (h : Unspaced text.toList) : Unbroken text := fun hmem =>
  absurd (h '\n' hmem) (by decide)

theorem of_covers {kind : Lexeme} {text : String} (h : kind.covers text.toList = true) : Unbroken text :=
  of_unspaced (Lexeme.unspaced_of_covers h)

end Unbroken

/-! ## Texts that differ by white space -/

/-- Texts of which the second has one white space character more, somewhere. -/
inductive Spaced : String → String → Prop where
  | inserted (before after : List Char) {w : Char} (hw : Character.isWhiteSpace w = true) :
    Spaced (String.ofList (before ++ after)) (String.ofList (before ++ w :: after))

theorem withoutWhiteSpace_ofList (text : List Char) :
    withoutWhiteSpace (String.ofList text) = String.ofList (text.filter fun c => !Character.isWhiteSpace c) := by
  rw [withoutWhiteSpace, String.toList_ofList]

theorem Spaced.withoutWhiteSpace_eq {a b : String} (h : Spaced a b) : withoutWhiteSpace a = withoutWhiteSpace b := by
  obtain ⟨before, after, hw⟩ := h
  rw [withoutWhiteSpace_ofList, withoutWhiteSpace_ofList, List.filter_append, List.filter_append,
    List.filter_cons_of_neg (by rw [hw]; decide)]

/-- A text is what is left of it with white space put in again. -/
theorem eqvGen_spaced_filter (before : List Char) : ∀ text : List Char,
    EqvGen Spaced (String.ofList (before ++ text.filter fun c => !Character.isWhiteSpace c))
      (String.ofList (before ++ text))
  | [] => .refl _
  | c :: text => by
    cases hc : Character.isWhiteSpace c with
    | true =>
      rw [List.filter_cons_of_neg (by rw [hc]; decide)]
      exact .trans _ _ _ (eqvGen_spaced_filter before text) (.rel _ _ (.inserted before text hc))
    | false =>
      have ih := eqvGen_spaced_filter (before ++ [c]) text
      rw [List.append_assoc, List.append_assoc] at ih
      rw [List.filter_cons_of_pos (by rw [hc]; decide)]
      exact ih

/-- **Texts differ by white space alone when they are one text without it.** -/
theorem eqvGen_spaced_iff {a b : String} : EqvGen Spaced a b ↔ withoutWhiteSpace a = withoutWhiteSpace b := by
  constructor
  · intro h
    induction h with
    | rel _ _ h => exact h.withoutWhiteSpace_eq
    | refl => rfl
    | symm _ _ _ ih => exact ih.symm
    | trans _ _ _ _ _ ih ih' => exact ih.trans ih'
  · intro h
    have hstrip : ∀ text : String, EqvGen Spaced (withoutWhiteSpace text) text := fun text => by
      have := eqvGen_spaced_filter [] text.toList
      rwa [List.nil_append, List.nil_append, String.ofList_toList] at this
    exact .trans _ _ _ (.symm _ _ (hstrip a)) (h ▸ hstrip b)

theorem unspaced_withoutWhiteSpace (text : String) : Unspaced (withoutWhiteSpace text).toList := by
  intro c hc
  rw [withoutWhiteSpace, String.toList_ofList, List.mem_filter] at hc
  simpa using hc.2

/-! ## What a step reads -/

/-- Where a text is cut after a part without white space, everything from its first white space on is behind the cut. -/
theorem exists_of_unspaced {read unread before after : List Char} {w : Char} (h : read ++ unread = before ++ w :: after)
    (hread : Unspaced read) (hw : Character.isWhiteSpace w = true) :
    ∃ rest, rest <:+ before ∧ unread = rest ++ w :: after := by
  rcases List.append_eq_append_iff.1 h with ⟨rest, rfl, hunread⟩ | ⟨more, rfl, hmore⟩
  · exact ⟨rest, List.suffix_append _ _, hunread⟩
  · cases more with
    | nil => exact ⟨[], List.nil_suffix, hmore.symm⟩
    | cons c more =>
      obtain ⟨rfl, -⟩ := List.cons.inj hmore
      rw [hread w (List.mem_append_right before List.mem_cons_self)] at hw
      cases hw

namespace Machine

/-- **No step reads white space.** -/
theorem Rule.reads_unspaced {limit : Nat} {c : Config} {next : Step} (h : Rule limit c next) :
    ∃ read, c.unread = read ++ next.unread ∧ Unspaced read := by
  cases h with
  | badNumber hs | divided hs | number hs | name hs => exact ⟨_, rfl, Lexeme.unspaced_of_covers hs⟩
  | tooDeep | opened => exact ⟨['('], rfl, by decide⟩
  | times op | plus op => exact ⟨[op.symbol], rfl, by cases op <;> decide⟩
  | groupDivided | closed => exact ⟨[')'], rfl, by decide⟩
  | ended | strange | finished | unclosed | unopened | unknown | unmatched => exact ⟨[], rfl, by decide⟩

/-- An unknown character is the next one in the text. -/
theorem Rule.head?_of_unknownCharacter {limit : Nat} {c : Config} {found : Char} {unread : List Char}
    (h : Rule limit c (.stop (.error (.unknownCharacter found)) unread)) : unread.head? = some found := by
  cases h with
  | strange | unknown => rfl
  | badNumber _ _ hf => cases Number.fault_of_read hf
  | divided _ _ _ hm | groupDivided hm => cases Pending.multiply_eq_error hm

namespace Moment

variable {σ : Type} {ask : String → StateM σ Reply} {limit : Nat} {source : List Char} {a b : Moment σ}
  {r : Evaluation × σ}

/-- A moment before which no white space was read. -/
def ReadsUnspaced (source : List Char) (a : Moment σ) : Prop :=
  ∃ read, read ++ a.config.unread = source ∧ Unspaced read

theorem ReadsUnspaced.step (limit : Nat) (h : a.ReadsUnspaced source) :
    ∃ read, read ++ (Machine.step limit a.config).unread = source ∧ Unspaced read := by
  obtain ⟨read, hread, hunspaced⟩ := h
  obtain ⟨taken, htaken, hmore⟩ := (rule_step limit a.config).reads_unspaced
  exact ⟨read ++ taken, by rw [List.append_assoc, ← htaken, hread], hunspaced.append hmore⟩

theorem Goes.readsUnspaced (h : Goes ask limit a b) (ha : a.ReadsUnspaced source) : b.ReadsUnspaced source := by
  rw [ReadsUnspaced, h.unread_eq]
  exact ha.step limit

theorem readsUnspaced_of_reaches {text : String} {s : Store} {memory : σ}
    (h : ReflTransGen (Goes ask limit) (.start text s memory) b) : b.ReadsUnspaced text.toList :=
  kept_of_reaches Goes.readsUnspaced h ⟨[], rfl, by decide⟩

theorem Ends.head?_of_unknownCharacter (h : Ends ask limit a r) {found : Char}
    (hr : r.1.outcome = .error (.unknownCharacter found)) : r.1.unread.head? = some found := by
  cases h with
  | stopped h =>
    cases hr
    exact (rule_iff.2 h).head?_of_unknownCharacter
  | refused h hf hv =>
    cases hr
    obtain ⟨reply, -, hreply, -⟩ := (Store.resolves_of_run hf).of_error hv
    cases reply with
    | error details => cases hreply
    | ok text => cases Number.fault_of_read hreply
  | divided h hf hv hm =>
    cases hr
    cases Pending.multiply_eq_error hm

end Moment
end Machine

/-! ## Sources and expressions -/

section

open Machine (Moment)

variable {σ : Type} {ask : String → StateM σ Reply} {limit : Nat} {s : Store} {memory : σ} {r : Evaluation × σ}

/-- An evaluation has read no white space, and a success has read everything. -/
theorem evaluateSource_unspaced {source : String} (hr : (evaluateSource ask limit s source).run memory = r) :
    ∃ read, read ++ r.1.unread = source.toList ∧ Unspaced read ∧
      (∀ value, r.1.outcome = .ok value → r.1.unread = []) ∧
      ∀ found, r.1.outcome = .error (.unknownCharacter found) → r.1.unread.head? = some found := by
  obtain ⟨b, hreaches, hends⟩ := Moment.finish_eq_iff.1
    ((run_evaluateSource ask limit s source memory).symm.trans hr)
  obtain ⟨read, hread, hunspaced⟩ := (Moment.readsUnspaced_of_reaches hreaches).step limit
  rw [← hends.unread_eq] at hread
  exact ⟨read, hread, hunspaced, fun value hv => hends.unread_eq_nil hv,
    fun found hf => hends.head?_of_unknownCharacter hf⟩

/-- In front of white space a source fails. -/
theorem evaluateSource_push {u : String} {w : Char} (hw : Character.isWhiteSpace w = true)
    (hr : (evaluateSource ask limit s (u.push w)).run memory = r) :
    ∃ fault rest, r.1.outcome = .error fault ∧ rest <:+ u.toList ∧ r.1.unread = rest ++ [w] := by
  obtain ⟨read, hread, hunspaced, hend, -⟩ := evaluateSource_unspaced hr
  rw [String.toList_push] at hread
  obtain ⟨rest, hrest, hunread⟩ := exists_of_unspaced hread hunspaced hw
  cases houtcome : r.1.outcome with
  | ok value =>
    rw [hend value houtcome] at hunread
    cases List.append_ne_nil_of_right_ne_nil rest (List.cons_ne_nil w []) hunread.symm
  | error fault => exact ⟨fault, rest, rfl, hrest, hunread⟩

/-- **White space is never read, and means nothing in an expression.**  A source that has a value has no white space,
and as an expression it is evaluated in the same way.  A source with white space fails: nothing that stands behind the
white space changes the fault, the lookups or the store, and at no moment has it been read.  Expressions that differ
only by white space, wherever it stands, are evaluated alike, and none of it is ever an unknown character of them. -/
theorem evaluate_spacing (ask : String → StateM σ Reply) (limit : Nat) (s : Store) :
    (∀ source memory value, ((evaluateSource ask limit s source).run memory).1.outcome = .ok value →
      Unspaced source.toList ∧
        (evaluate ask limit s source).run memory = (evaluateSource ask limit s source).run memory) ∧
    (∀ (u : String) w memory, Character.isWhiteSpace w = true →
      ∃ fault store lookups rest last, rest <:+ u.toList ∧ ∀ t,
        (evaluateSource ask limit s (u.push w ++ t)).run memory =
          (⟨.error fault, store, lookups, rest ++ w :: t.toList⟩, last) ∧
        ∀ a, ReflTransGen (Moment.Goes ask limit) (.start (u.push w ++ t) s memory) a →
          w :: t.toList <:+ a.config.unread) ∧
    (∀ expression expression', EqvGen Spaced expression expression' →
      evaluate ask limit s expression = evaluate ask limit s expression') ∧
    ∀ expression memory found,
      ((evaluate ask limit s expression).run memory).1.outcome = .error (.unknownCharacter found) →
        Character.isWhiteSpace found = false := by
  refine ⟨fun source memory value hv => ?_, fun u w memory hw => ?_, fun a b h => ?_, fun e memory found hf => ?_⟩
  · obtain ⟨read, hread, hunspaced, hend, -⟩ :=
      evaluateSource_unspaced (rfl : (evaluateSource ask limit s source).run memory = _)
    rw [hend value hv, List.append_nil] at hread
    rw [hread] at hunspaced
    exact ⟨hunspaced, by rw [evaluate, hunspaced.withoutWhiteSpace_eq]⟩
  · rcases hr : (evaluateSource ask limit s (u.push w)).run memory with ⟨⟨outcome, store, lookups, unread⟩, last⟩
    obtain ⟨fault, rest, rfl, hrest, rfl⟩ := evaluateSource_push hw hr
    refine ⟨fault, store, lookups, rest, last, hrest, fun t => ⟨?_, fun a ha => ?_⟩⟩
    · have happend := evaluateSource_append hr (List.append_ne_nil_of_right_ne_nil rest (List.cons_ne_nil w [])) t
      rwa [Evaluation.append, List.append_assoc, List.singleton_append] at happend
    · obtain ⟨read, hread, hunspaced⟩ := Moment.readsUnspaced_of_reaches ha
      rw [String.toList_append, String.toList_push, List.append_assoc, List.singleton_append] at hread
      obtain ⟨rest, -, hunread⟩ := exists_of_unspaced hread hunspaced hw
      exact ⟨rest, hunread.symm⟩
  · rw [evaluate, evaluate, eqvGen_spaced_iff.1 h]
  · obtain ⟨read, hread, -, -, hhead⟩ :=
      evaluateSource_unspaced (rfl : (evaluateSource ask limit s (withoutWhiteSpace e)).run memory = _)
    refine unspaced_withoutWhiteSpace e found ?_
    rw [← hread]
    exact List.mem_append_right read (List.mem_of_head? (hhead found hf))

/-- An em space in a group, a name with a line feed and a tabulator in it, and a sign that is no operator. -/
theorem evaluate_spacing_within_name :
    let ask : String → StateM Nat Reply := fun _ => modifyGet fun asked => (.ok "4", asked + 1)
    let source := "-1*(x1+x1)"
    let u := "y*(x1"
    let expression := "- 1 * (x\n1 + x\t1)"
    (((evaluateSource ask 1 .empty source).run 0).1.outcome = .ok (-8) ∧
      Character.isWhiteSpace '\u2003' = true ∧ EqvGen Spaced expression source ∧
      ((evaluate ask 1 .empty "x1 ^ 2").run 0).1.outcome = .error (.unknownCharacter '^')) ∧
    (Unspaced source.toList ∧ (evaluate ask 1 .empty source).run 0 = (evaluateSource ask 1 .empty source).run 0) ∧
    (∃ fault store lookups rest last, rest <:+ u.toList ∧ ∀ t,
      (evaluateSource ask 1 .empty (u.push '\u2003' ++ t)).run 0 =
        (⟨.error fault, store, lookups, rest ++ '\u2003' :: t.toList⟩, last) ∧
      ∀ a, ReflTransGen (Moment.Goes ask 1) (.start (u.push '\u2003' ++ t) .empty 0) a →
        '\u2003' :: t.toList <:+ a.config.unread) ∧
    evaluate ask 1 .empty expression = evaluate ask 1 .empty source ∧ Character.isWhiteSpace '^' = false := by
  intro ask source u expression
  have hvalue : ((evaluateSource ask 1 .empty source).run 0).1.outcome = .ok (-8) := by decide +kernel
  have hw : Character.isWhiteSpace '\u2003' = true := by decide
  have hspaced : EqvGen Spaced expression source := eqvGen_spaced_iff.2 (by decide +kernel)
  have hfound : ((evaluate ask 1 .empty "x1 ^ 2").run 0).1.outcome = .error (.unknownCharacter '^') := by
    decide +kernel
  obtain ⟨hraw, hfails, halike, hunknown⟩ := evaluate_spacing ask 1 .empty
  exact ⟨⟨hvalue, hw, hspaced, hfound⟩, hraw source 0 _ hvalue, hfails u _ 0 hw, halike _ _ hspaced,
    hunknown _ 0 _ hfound⟩

end

end Calculator
