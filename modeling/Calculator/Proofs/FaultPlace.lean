import Calculator.Evaluation
import Calculator.Proofs.Mirror
/-!
# Proofs.FaultPlace — every fault is at its place

An evaluation that fails splits its text into what it has read and what it has not.  For each fault, `FaultAt` says what
stands before that place and what comes after it, as the grammar has it: where an operand is due, which tree has been
read, how many parentheses are open, and who was asked last.  No fault is anywhere else (`evaluate_faultAt`).
-/
namespace Calculator

def Lexeme.operators : List Char := ['+', '-', '*', '/']

theorem SumOperator.symbol_mem_operators (op : SumOperator) : op.symbol ∈ Lexeme.operators := by cases op <;> decide

theorem ProductOperator.symbol_mem_operators (op : ProductOperator) : op.symbol ∈ Lexeme.operators := by
  cases op <;> decide

/-- The texts after which an operand is due: the empty one, and those that end with an open parenthesis or with an
operator that has its left operand. -/
inductive OperandDue : List Char → Prop where
  | start : OperandDue []
  | opened {read : List Char} (h : OperandDue read) : OperandDue (read ++ ['('])
  | operator {read : List Char} {c : Char} (h : OperandDue read) (left : Tree .factor) (hc : c ∈ Lexeme.operators) :
    OperandDue (read ++ left.text ++ [c])

/-- How many parentheses are open after one more character. -/
def nest (n : Nat) (c : Char) : Nat := if c = '(' then n + 1 else if c = ')' then n - 1 else n

/-- How many parentheses of a text are not closed in it. -/
def unclosed (text : List Char) : Nat := text.foldl nest 0

/-- Whether a text ends with this lexeme as an operand, and the lexeme ends where the text does. -/
def Lexeme.Closes (kind : Lexeme) (span read unread : List Char) : Prop :=
  ∃ before, OperandDue before ∧ read = before ++ span ∧ kind.covers span = true ∧ kind.Ends unread

/-- Whether an operand could not be longer before this text. -/
def Tree.EndsBefore (unread : List Char) : Tree .factor → Prop
  | number _ _ => Lexeme.number.Ends unread
  | name _ _ => Lexeme.name.Ends unread
  | group _ => True

/-- Where each fault can be: after the text `read`, and before what the evaluation has not read. -/
inductive FaultAt (limit : Nat) (read : List Char) (e : Evaluation) : Fault → Prop where
  | ended (hp : OperandDue read) (hu : e.unread = []) : FaultAt limit read e .unexpectedEnd
  | strange {c : Char} (hp : OperandDue read) (hu : e.unread.head? = some c) (hd : c.isDigit = false) (hm : c ≠ '-')
    (ha : Character.isAlphabetic c = false) (ho : c ≠ '(') : FaultAt limit read e (.unknownCharacter c)
  | unknown {c : Char} (t : Tree .expression) (ht : read = t.text) (hu : e.unread.head? = some c)
    (hc : c ∉ Lexeme.operators) (hp : c ≠ ')') : FaultAt limit read e (.unknownCharacter c)
  | unopened (t : Tree .expression) (ht : read = t.text) (hu : e.unread.head? = some ')') :
    FaultAt limit read e .mismatchedParenthesis
  | unmatched {before : List Char} (hb : OperandDue before) (t : Tree .expression) (ht : read = before ++ '(' :: t.text)
    (hn : unclosed read = unclosed before + 1) (hu : ∀ c ∈ e.unread.head?, c ∉ Lexeme.operators ∧ c ≠ ')') :
    FaultAt limit read e .mismatchedParenthesis
  | tooDeep {before : List Char} (hb : OperandDue before) (hr : read = before ++ ['('])
    (hn : unclosed read = limit + 1) : FaultAt limit read e (.tooDeep limit)
  | badNumber {span : List Char} (hs : Lexeme.number.Closes span read e.unread)
    (hv : Number.read (String.ofList span) = .error (.malformedNumber (String.ofList span))) :
    FaultAt limit read e (.malformedNumber (String.ofList span))
  | badReply {name text : String} (hs : Lexeme.name.Closes name.toList read e.unread)
    (hl : e.lookups.getLast? = some (.asked name (.ok text))) (hn : e.store.get? name = none)
    (hv : Number.read text = .error (.malformedNumber text)) : FaultAt limit read e (.malformedNumber text)
  | unresolved {name details : String} (hs : Lexeme.name.Closes name.toList read e.unread)
    (hl : e.lookups.getLast? = some (.asked name (.error details))) (hn : e.store.get? name = none) :
    FaultAt limit read e (.unresolved name details)
  | divisionByZero {before : List Char} {left : Tree .term} {right : Tree .factor} {zero : Float}
    (hb : OperandDue before) (hr : read = before ++ left.text ++ '/' :: right.text) (hu : right.EndsBefore e.unread)
    (hv : right.value? e.store = some zero) (he : right.ComesTo e.store zero) (hz : (zero == 0) = true) :
    FaultAt limit read e .divisionByZero

/-! ## What has been read, where an operand is due -/

namespace OperandDue

variable {read : List Char}

theorem append_term (h : OperandDue read) :
    ∀ (t : Tree .term) {c : Char}, c ∈ Lexeme.operators → OperandDue (read ++ t.text ++ [c])
  | .factor only, _, hc => .operator h only hc
  | .product left op right, c, hc => by
    have hleft := h.append_term left op.symbol_mem_operators
    have hright := OperandDue.operator hleft right hc
    rw [List.append_assoc, Tree.text_product_append]
    simpa only [List.append_assoc, List.cons_append, List.nil_append] using hright

theorem append_expression (h : OperandDue read) :
    ∀ (t : Tree .expression) {c : Char}, c ∈ Lexeme.operators → OperandDue (read ++ t.text ++ [c])
  | .term only, _, hc => h.append_term only hc
  | .sum left op right, c, hc => by
    have hleft := h.append_expression left op.symbol_mem_operators
    have hright := hleft.append_term right hc
    rw [List.append_assoc, Tree.text_sum_append]
    simpa only [List.append_assoc, List.cons_append, List.nil_append] using hright

theorem append_sum (h : OperandDue read) :
    ∀ sum : Option (Tree .expression × SumOperator), OperandDue (read ++ Opening.sumText sum)
  | none => by rwa [Opening.sumText, List.append_nil]
  | some (left, op) => by
    rw [Opening.sumText, ← List.append_assoc]
    exact h.append_expression left op.symbol_mem_operators

theorem append_product (h : OperandDue read) :
    ∀ product : Option (Tree .term × ProductOperator), OperandDue (read ++ Opening.productText product)
  | none => by rwa [Opening.productText, List.append_nil]
  | some (left, op) => by
    rw [Opening.productText, ← List.append_assoc]
    exact h.append_term left op.symbol_mem_operators

theorem append_opening (h : OperandDue read) (here : Opening) : OperandDue (read ++ here.text) := by
  rw [Opening.text, ← List.append_assoc]
  exact (h.append_sum here.sum).append_product here.product

end OperandDue

theorem Opening.operandDue_outerText : ∀ outer : List Opening, OperandDue (outerText outer)
  | [] => .start
  | here :: outer => ((operandDue_outerText outer).append_opening here).opened

theorem Reading.operandDue (outer : List Opening) (here : Opening) : OperandDue (operand outer here).text :=
  (Opening.operandDue_outerText outer).append_opening here

/-! ## Parentheses that are open -/

theorem unclosed_append (before after : List Char) : unclosed (before ++ after) = after.foldl nest (unclosed before) :=
  List.foldl_append

theorem foldl_nest_of_plain : ∀ {text : List Char} (n : Nat), (∀ c ∈ text, c ≠ '(' ∧ c ≠ ')') → text.foldl nest n = n
  | [], _, _ => rfl
  | c :: rest, n, h => by
    obtain ⟨ho, hc⟩ := h c List.mem_cons_self
    rw [List.foldl_cons, nest, if_neg ho, if_neg hc]
    exact foldl_nest_of_plain n fun d hd => h d (List.mem_cons_of_mem c hd)

theorem Lexeme.ne_paren_of_covers {kind : Lexeme} {span : List Char} (hs : kind.covers span = true) :
    ∀ c ∈ span, c ≠ '(' ∧ c ≠ ')' := by
  obtain ⟨c, rest, rfl, hc, hrest⟩ := covers_iff.1 hs
  intro d hd
  rcases List.mem_cons.1 hd with rfl | hd
  · constructor <;> rintro rfl <;> cases kind <;> exact absurd hc (by decide)
  · have hd := hrest d hd
    constructor <;> rintro rfl <;> cases kind <;> exact absurd hd (by decide)

theorem Lexeme.foldl_nest {kind : Lexeme} {span : List Char} (hs : kind.covers span = true) (n : Nat) :
    span.foldl nest n = n :=
  foldl_nest_of_plain n (ne_paren_of_covers hs)

/-- A tree closes all parentheses that it opens. -/
theorem Tree.foldl_nest : ∀ {level : Level} (t : Tree level) (n : Nat), t.text.foldl nest n = n
  | _, number span hs, n => Lexeme.foldl_nest hs n
  | _, name span hs, n => Lexeme.foldl_nest hs n
  | _, group inner, n => by
    rw [text, List.cons_append, List.foldl_cons, List.foldl_append, inner.foldl_nest]
    rfl
  | _, factor only, n => only.foldl_nest n
  | _, product left op right, n => by
    rw [text, List.foldl_append, List.foldl_cons, left.foldl_nest, right.foldl_nest]
    cases op <;> rfl
  | _, term only, n => only.foldl_nest n
  | _, sum left op right, n => by
    rw [text, List.foldl_append, List.foldl_cons, left.foldl_nest, right.foldl_nest]
    cases op <;> rfl

namespace Opening

theorem foldl_nest_sumText (n : Nat) :
    ∀ sum : Option (Tree .expression × SumOperator), (sumText sum).foldl nest n = n
  | none => rfl
  | some (left, op) => by
    rw [sumText, List.foldl_append, left.foldl_nest]
    cases op <;> rfl

theorem foldl_nest_productText (n : Nat) :
    ∀ product : Option (Tree .term × ProductOperator), (productText product).foldl nest n = n
  | none => rfl
  | some (left, op) => by
    rw [productText, List.foldl_append, left.foldl_nest]
    cases op <;> rfl

theorem foldl_nest_text (o : Opening) (n : Nat) : o.text.foldl nest n = n := by
  rw [text, List.foldl_append, foldl_nest_sumText, foldl_nest_productText]

theorem unclosed_outerText : ∀ outer : List Opening, unclosed (outerText outer) = outer.length
  | [] => rfl
  | here :: outer => by
    rw [outerText, unclosed_append, unclosed_append, unclosed_outerText outer, foldl_nest_text]
    rfl

end Opening

theorem Reading.unclosed_operand (outer : List Opening) (here : Opening) :
    unclosed (operand outer here).text = outer.length := by
  rw [text, unclosed_append, Opening.unclosed_outerText, here.foldl_nest_text]

/-! ## Where the last step can end -/

theorem Number.fault_of_read {text : String} {fault : Fault} (h : read text = .error fault) :
    fault = .malformedNumber text := by
  unfold read at h
  split at h <;> cases h
  rfl

theorem Lexeme.not_mem_operators {c : Char} (h : c ∉ signs) : c ∉ operators :=
  fun hc => h (List.mem_append_left [')'] hc)

namespace FaultAt

open Machine (Pending Last)

variable {limit : Nat} {s : Store} {outer : List Opening} {here : Opening} {fault : Fault}

/-- Lookups before the last ones do not matter. -/
theorem prepend {read : List Char} {e : Evaluation} (h : FaultAt limit read e fault) (before : List Lookup) :
    FaultAt limit read { e with lookups := before ++ e.lookups } fault := by
  cases h with
  | ended hp hu => exact .ended hp hu
  | strange hp hu hd hm ha ho => exact .strange hp hu hd hm ha ho
  | unknown t ht hu hc hp => exact .unknown t ht hu hc hp
  | unopened t ht hu => exact .unopened t ht hu
  | unmatched hb t ht hn hu => exact .unmatched hb t ht hn hu
  | tooDeep hb hr hn => exact .tooDeep hb hr hn
  | badNumber hs hv => exact .badNumber hs hv
  | badReply hs hl hn hv => exact .badReply hs (by rw [List.getLast?_append, hl]; rfl) hn hv
  | unresolved hs hl hn => exact .unresolved hs (by rw [List.getLast?_append, hl]; rfl) hn
  | divisionByZero hb hr hu hv he hz => exact .divisionByZero hb hr hu hv he hz

/-- An operand that cannot be multiplied is the zero to the right of a division. -/
theorem of_multiply (outer : List Opening) {here' : Pending} (hh : here.Mirrors s here') {right : Tree .factor}
    {value : Float} (hv : right.value? s = some value) (hm : here'.multiply value = .error fault)
    (lookups : List Lookup) {unread : List Char} (hu : right.EndsBefore unread) :
    FaultAt limit ((Reading.operand outer here).text ++ right.text) ⟨.error fault, s, lookups, unread⟩ fault := by
  obtain ⟨rfl, hz, left, hleft⟩ := hh.product.multiply_error hm
  have hdue := (Opening.operandDue_outerText outer).append_sum here.sum
  have htext : (Reading.operand outer here).text ++ right.text =
      Opening.outerText outer ++ Opening.sumText here.sum ++ left.text ++ '/' :: right.text := by
    simp only [Reading.text, Opening.text, hleft, Opening.productText, ProductOperator.symbol, List.append_assoc,
      List.cons_append, List.nil_append]
  exact .divisionByZero hdue htext hu hv (Tree.comesTo_of_value? hv) hz

theorem of_operand {outer' : List Pending} {here' : Pending} {unread rest : List Char}
    (ho : outer.length = outer'.length) (hh : here.Mirrors s here') (hw : (Reading.operand outer here).Within limit)
    (h : Machine.step limit (.operand outer' here' unread) = .stop (.error fault) rest) :
    ∃ read, (Reading.operand outer here).text ++ unread = read ++ rest ∧
      FaultAt limit read ⟨.error fault, s, [], rest⟩ fault := by
  have hdue := Reading.operandDue outer here
  cases Machine.rule_iff.2 h with
  | ended => exact ⟨_, rfl, .ended hdue rfl⟩
  | badNumber hs hr hf =>
    obtain rfl := Number.fault_of_read hf
    exact ⟨_, (List.append_assoc ..).symm, .badNumber ⟨_, hdue, rfl, hs, hr⟩ hf⟩
  | divided hs hr hv hm =>
    have hvalue : (Tree.number _ hs).value? s = some _ := congrArg Except.toOption hv
    exact ⟨_, (List.append_assoc ..).symm, of_multiply outer hh hvalue hm [] hr⟩
  | tooDeep hd =>
    obtain ⟨-, hn⟩ := hw
    refine ⟨(Reading.operand outer here).text ++ ['('], by simp, .tooDeep hdue rfl ?_⟩
    rw [unclosed_append, Reading.unclosed_operand]
    show outer.length + 1 = limit + 1
    omega
  | strange hc hp =>
    have hnumber := Lexeme.not_starts_of_ofChar? hc .number
    simp only [Lexeme.starts, Bool.or_eq_false_iff, beq_eq_false_iff_ne] at hnumber
    exact ⟨_, rfl, .strange hdue rfl hnumber.1 hnumber.2 (Lexeme.not_starts_of_ofChar? hc .name) hp⟩

theorem of_operator {sum : Option (Tree .expression × SumOperator)} {sum' : Option (Float × SumOperator)}
    {product : Tree .term} {product' : Float} {outer' : List Pending} {unread rest : List Char}
    (ho : List.Forall₂ (Opening.Mirrors s) outer outer') (hs : Awaits s sum sum')
    (hp : product.value? s = some product')
    (h : Machine.step limit (.operator outer' sum' product' unread) = .stop (.error fault) rest) :
    ∃ read, (Reading.operator outer sum product).text ++ unread = read ++ rest ∧
      FaultAt limit read ⟨.error fault, s, [], rest⟩ fault := by
  cases ho with
  | nil =>
    have htext := Reading.text_operator_nil sum product
    cases Machine.rule_iff.2 h with
    | unopened => exact ⟨_, rfl, .unopened _ htext rfl⟩
    | unknown hc => exact ⟨_, rfl, .unknown _ htext rfl (Lexeme.not_mem_operators hc) (Lexeme.ne_of_not_mem_signs hc)⟩
  | @cons here here' outer outer' hh ho =>
    have hdue := Reading.operandDue outer here
    have htext := Reading.text_operator_cons outer here sum product
    have hopen : unclosed (Reading.operator (here :: outer) sum product).text =
        unclosed (Reading.operand outer here).text + 1 := by
      rw [htext, unclosed_append, List.foldl_cons, Tree.foldl_nest]
      rfl
    cases Machine.rule_iff.2 h with
    | unclosed => exact ⟨_, rfl, .unmatched hdue _ htext hopen fun _ hc => nomatch hc⟩
    | unmatched hc =>
      refine ⟨_, rfl, .unmatched hdue _ htext hopen fun d hd => ?_⟩
      cases hd
      exact ⟨Lexeme.not_mem_operators hc, Lexeme.ne_of_not_mem_signs hc⟩
    | groupDivided hm =>
      have hvalue : (Tree.group (.addTo sum product)).value? s = some _ := hs.addTo hp
      refine ⟨_, ?_, of_multiply outer hh hvalue hm [] trivial⟩
      simp only [htext, Tree.text, List.append_assoc, List.cons_append, List.nil_append]

/-- A name that is asked for in vain is where the text ends. -/
theorem of_refused (outer : List Opening) (here : Opening) {name : String} {found : Resolution}
    {span unread : List Char} (hf : s.Resolves name found) (hv : found.value = .error fault)
    (hname : name = String.ofList span) (hs : Lexeme.name.covers span = true) (hr : Lexeme.name.Ends unread) :
    FaultAt limit ((Reading.operand outer here).text ++ span)
      ⟨.error fault, found.store, [found.lookup], unread⟩ fault := by
  have hcloses : Lexeme.name.Closes name.toList ((Reading.operand outer here).text ++ span) unread := by
    rw [hname, String.toList_ofList]
    exact ⟨_, Reading.operandDue outer here, rfl, hs, hr⟩
  cases hf with
  | known | accepted => cases hv
  | @refused reply fault h hreply =>
    cases hv
    cases reply with
    | error details =>
      cases hreply
      exact .unresolved hcloses rfl h
    | ok text =>
      have hread : Number.read text = .error fault := hreply
      obtain rfl := Number.fault_of_read hread
      exact .badReply hcloses rfl h hread

/-- **The last step ends at the place of its fault.** -/
theorem of_last {r : Reading} {c : Machine.Config} {e : Evaluation} (hr : r.Mirrors s c) (hw : r.Within limit)
    (h : Last limit c s e) (he : e.outcome = .error fault) :
    ∃ read, r.text ++ c.unread = read ++ e.unread ∧ FaultAt limit read e fault := by
  cases h with
  | stopped h =>
    cases he
    cases hr with
    | operand ho hh => exact of_operand ho.length_eq hh hw h
    | operator ho hs hp => exact of_operator ho hs hp h
  | refused h hf hv =>
    cases he
    obtain ⟨outer, here, span, rfl, ho, hh, hunread, hname, hs, hr⟩ := hr.of_lookup h
    refine ⟨_, ?_, of_refused outer here hf hv hname hs hr⟩
    rw [hunread, List.append_assoc]
  | divided h hf hv hm =>
    cases he
    obtain ⟨outer, here, span, rfl, ho, hh, hunread, rfl, hs, hr⟩ := hr.of_lookup h
    have hvalue : (Tree.name span hs).value? _ = some _ := hf.get?_of_ok hv
    refine ⟨_, ?_, of_multiply outer (hh.mono hf.le) hvalue hm _ hr⟩
    rw [hunread, Tree.text, List.append_assoc]

end FaultAt

/-- **Every fault is at its place.**  An evaluation that fails has read a part of the expression and not the rest, white
space apart, and what the fault says is so between these two. -/
theorem evaluate_faultAt {σ : Type} (ask : String → StateM σ Reply) (limit : Nat) (store : Store) (expression : String)
    (memory : σ) {fault : Fault}
    (h : ((evaluate ask limit store expression).run memory).1.outcome = .error fault) :
    ∃ read, (withoutWhiteSpace expression).toList =
        read ++ ((evaluate ask limit store expression).run memory).1.unread ∧
      FaultAt limit read ((evaluate ask limit store expression).run memory).1 fault := by
  have hcourse := course_evaluateSource ask limit store (withoutWhiteSpace expression) memory
  unfold evaluate at h ⊢
  obtain ⟨c, s, e, before, ⟨r, hr, hw, htext⟩, hlast, he⟩ := hcourse.exists_last
    (Reading.mirrored_kept limit _) (Reading.mirrored_start limit _ store)
  rw [he] at h ⊢
  obtain ⟨read, hread, hfault⟩ := FaultAt.of_last hr hw hlast h
  exact ⟨read, htext.symm.trans hread, hfault.prepend before⟩

/-- The evaluation stops after the group that is zero, and neither reads on nor asks for the last name. -/
theorem evaluate_faultAt_zero_group :
    let ask : String → StateM Nat Reply := fun _ => modifyGet fun asked => (.ok "5", asked + 1)
    let expression := "(1 + x) / (2 - 2) * y"
    let e := ((evaluate ask 1 .empty expression).run 0).1
    (e.outcome = .error .divisionByZero ∧ e.unread = ['*', 'y'] ∧ e.prompts = ["x"]) ∧
    ∃ read, (withoutWhiteSpace expression).toList = read ++ e.unread ∧ FaultAt 1 read e .divisionByZero := by
  intro ask expression e
  have h : e.outcome = .error .divisionByZero := by decide +kernel
  exact ⟨⟨h, by decide +kernel, by decide +kernel⟩, evaluate_faultAt ask 1 .empty expression 0 h⟩

end Calculator
