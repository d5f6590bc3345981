import Mathlib.Logic.Relation
import Calculator.Proofs.Rule
/-!
# Proofs.Reading — the part of a text that has been read, as trees

Up to any place, a text that can still become an expression consists of whole trees, the operators between them and
the parentheses that are open (`Reading`).  Reading on is a relation with one rule for each thing that can come next
(`Reads`): it changes nothing of the text, and there is one way to read on at most.  Since the text of a tree reads to
that tree, a text has one tree at most (`Tree.text_inj`).
-/
namespace Calculator

/-- What waits for an operand on one level of parentheses. -/
structure Opening where
  sum : Option (Tree .expression × SumOperator) := none
  product : Option (Tree .term × ProductOperator) := none

namespace Tree

/-- A sum that is begun, with its next term. -/
def addTo : Option (Tree .expression × SumOperator) → Tree .term → Tree .expression
  | none, right => .term right
  | some (left, op), right => .sum left op right

def multiplyTo : Option (Tree .term × ProductOperator) → Tree .factor → Tree .term
  | none, right => .factor right
  | some (left, op), right => .product left op right

end Tree

namespace Opening

def sumText : Option (Tree .expression × SumOperator) → List Char
  | none => []
  | some (left, op) => left.text ++ [op.symbol]

def productText : Option (Tree .term × ProductOperator) → List Char
  | none => []
  | some (left, op) => left.text ++ [op.symbol]

def text (o : Opening) : List Char := sumText o.sum ++ productText o.product

/-- The text up to the innermost open parenthesis, by what waits outside of each one. -/
def outerText : List Opening → List Char
  | [] => []
  | here :: outer => outerText outer ++ here.text ++ ['(']

end Opening

/-- What has been read: up to an operand that comes next, or up to the end of one. -/
inductive Reading where
  | operand (outer : List Opening) (here : Opening)
  | operator (outer : List Opening) (sum : Option (Tree .expression × SumOperator)) (product : Tree .term)

def Reading.text : Reading → List Char
  | operand outer here => Opening.outerText outer ++ here.text
  | operator outer sum product => Opening.outerText outer ++ Opening.sumText sum ++ product.text

namespace Tree

theorem text_addTo (sum : Option (Tree .expression × SumOperator)) (right : Tree .term) :
    (addTo sum right).text = Opening.sumText sum ++ right.text := by
  rcases sum with _ | ⟨left, op⟩
  · rfl
  · simp only [addTo, text, Opening.sumText, List.append_assoc, List.singleton_append]

theorem text_multiplyTo (product : Option (Tree .term × ProductOperator)) (right : Tree .factor) :
    (multiplyTo product right).text = Opening.productText product ++ right.text := by
  rcases product with _ | ⟨left, op⟩
  · rfl
  · simp only [multiplyTo, text, Opening.productText, List.append_assoc, List.singleton_append]

end Tree

/-- What has been read up to the end of an operand outside of all parentheses is one tree. -/
theorem Reading.text_operator_nil (sum : Option (Tree .expression × SumOperator)) (product : Tree .term) :
    (operator [] sum product).text = (Tree.addTo sum product).text := by
  rw [Tree.text_addTo]
  rfl

theorem Reading.text_operator_cons (outer : List Opening) (here : Opening)
    (sum : Option (Tree .expression × SumOperator)) (product : Tree .term) :
    (operator (here :: outer) sum product).text =
      (operand outer here).text ++ '(' :: (Tree.addTo sum product).text := by
  simp only [text, Opening.outerText, Tree.text_addTo, List.append_assoc, List.cons_append, List.nil_append]

/-- One step of reading, with the text before and after it. -/
inductive Reads : Reading × List Char → Reading × List Char → Prop where
  | number {outer : List Opening} {here : Opening} {span rest : List Char} (hs : Lexeme.number.covers span = true)
    (hr : Lexeme.number.Ends rest) : Reads (.operand outer here, span ++ rest)
      (.operator outer here.sum (.multiplyTo here.product (.number span hs)), rest)
  | name {outer : List Opening} {here : Opening} {span rest : List Char} (hs : Lexeme.name.covers span = true)
    (hr : Lexeme.name.Ends rest) : Reads (.operand outer here, span ++ rest)
      (.operator outer here.sum (.multiplyTo here.product (.name span hs)), rest)
  | opened {outer : List Opening} {here : Opening} {rest : List Char} :
    Reads (.operand outer here, '(' :: rest) (.operand (here :: outer) {}, rest)
  | closed {outer : List Opening} {here : Opening} {sum : Option (Tree .expression × SumOperator)}
    {product : Tree .term} {rest : List Char} : Reads (.operator (here :: outer) sum product, ')' :: rest)
      (.operator outer here.sum (.multiplyTo here.product (.group (.addTo sum product))), rest)
  | times {outer : List Opening} {sum : Option (Tree .expression × SumOperator)} {product : Tree .term}
    {rest : List Char} (op : ProductOperator) : Reads (.operator outer sum product, op.symbol :: rest)
      (.operand outer ⟨sum, some (product, op)⟩, rest)
  | plus {outer : List Opening} {sum : Option (Tree .expression × SumOperator)} {product : Tree .term}
    {rest : List Char} (op : SumOperator) : Reads (.operator outer sum product, op.symbol :: rest)
      (.operand outer ⟨some (.addTo sum product, op), none⟩, rest)

theorem Reads.text_eq {p q : Reading × List Char} (h : Reads p q) : q.1.text ++ q.2 = p.1.text ++ p.2 := by
  cases h with
  | number hs hr | name hs hr =>
    simp only [Reading.text, Tree.text_multiplyTo, Opening.text, Tree.text, List.append_assoc]
  | opened =>
    simp only [Reading.text, Opening.outerText, Opening.text, Opening.sumText, Opening.productText, List.append_assoc,
      List.nil_append, List.singleton_append]
  | closed =>
    simp only [Reading.text, Tree.text_multiplyTo, Tree.text, Tree.text_addTo, Opening.outerText, Opening.text,
      List.append_assoc, List.cons_append, List.nil_append]
  | times op =>
    simp only [Reading.text, Opening.text, Opening.productText, List.append_assoc, List.cons_append, List.nil_append]
  | plus op =>
    simp only [Reading.text, Opening.text, Opening.sumText, Opening.productText, Tree.text_addTo, List.append_assoc,
      List.cons_append, List.nil_append, List.append_nil]

/-! ## One way to read on -/

namespace Lexeme

theorem paren_ne_span {kind : Lexeme} {span rest rest' : List Char} (hs : kind.covers span = true) :
    '(' :: rest ≠ span ++ rest' := by
  obtain ⟨c, tail, rfl, hc, -⟩ := covers_iff.1 hs
  intro h
  obtain ⟨rfl, -⟩ := List.cons.inj h
  cases kind
  · exact absurd hc (by decide)
  · exact absurd hc (by decide)

theorem number_ne_name {span span' rest rest' : List Char} (hs : number.covers span = true)
    (hs' : name.covers span' = true) : span ++ rest ≠ span' ++ rest' := by
  obtain ⟨c, tail, rfl, hc, -⟩ := covers_iff.1 hs
  obtain ⟨c', tail', rfl, hc', -⟩ := covers_iff.1 hs'
  intro h
  obtain ⟨rfl, -⟩ := List.cons.inj h
  rw [not_name_of_number hc] at hc'
  cases hc'

theorem span_eq {kind : Lexeme} {span span' rest rest' : List Char} (hs : kind.covers span = true)
    (hr : kind.Ends rest) (hs' : kind.covers span' = true) (hr' : kind.Ends rest')
    (h : span ++ rest = span' ++ rest') : span = span' ∧ rest = rest' := by
  have hsplit := split_append_of_covers hs hr
  rw [h, split_append_of_covers hs' hr'] at hsplit
  exact ⟨(Prod.mk.inj hsplit).1.symm, (Prod.mk.inj hsplit).2.symm⟩

end Lexeme

namespace Reads

variable {outer : List Opening} {here : Opening} {sum : Option (Tree .expression × SumOperator)} {product : Tree .term}
  {text : List Char} {q : Reading × List Char}

theorem of_operand (h : Reads (.operand outer here, text) q) :
    (∃ span rest, ∃ hs : Lexeme.number.covers span = true, text = span ++ rest ∧ Lexeme.number.Ends rest ∧
      q = (.operator outer here.sum (.multiplyTo here.product (.number span hs)), rest)) ∨
    (∃ span rest, ∃ hs : Lexeme.name.covers span = true, text = span ++ rest ∧ Lexeme.name.Ends rest ∧
      q = (.operator outer here.sum (.multiplyTo here.product (.name span hs)), rest)) ∨
    ∃ rest, text = '(' :: rest ∧ q = (.operand (here :: outer) {}, rest) := by
  generalize hp : (Reading.operand outer here, text) = p at h
  cases h with
  | number hs hr => cases hp; exact .inl ⟨_, _, hs, rfl, hr, rfl⟩
  | name hs hr => cases hp; exact .inr (.inl ⟨_, _, hs, rfl, hr, rfl⟩)
  | opened => cases hp; exact .inr (.inr ⟨_, rfl, rfl⟩)
  | closed | times | plus => cases hp

theorem of_operator (h : Reads (.operator outer sum product, text) q) :
    (∃ here outer' rest, outer = here :: outer' ∧ text = ')' :: rest ∧
      q = (.operator outer' here.sum (.multiplyTo here.product (.group (.addTo sum product))), rest)) ∨
    (∃ (op : ProductOperator) (rest : List Char), text = op.symbol :: rest ∧
      q = (.operand outer ⟨sum, some (product, op)⟩, rest)) ∨
    ∃ (op : SumOperator) (rest : List Char), text = op.symbol :: rest ∧
      q = (.operand outer ⟨some (.addTo sum product, op), none⟩, rest) := by
  generalize hp : (Reading.operator outer sum product, text) = p at h
  cases h with
  | closed => cases hp; exact .inl ⟨_, _, _, rfl, rfl, rfl⟩
  | times op => cases hp; exact .inr (.inl ⟨op, _, rfl, rfl⟩)
  | plus op => cases hp; exact .inr (.inr ⟨op, _, rfl, rfl⟩)
  | number | name | opened => cases hp

theorem rightUnique : Relator.RightUnique Reads := by
  rintro ⟨r, text⟩ q q' h h'
  cases r with
  | operand outer here =>
    rcases h.of_operand with ⟨span, rest, hs, rfl, hr, rfl⟩ | ⟨span, rest, hs, rfl, hr, rfl⟩ | ⟨rest, rfl, rfl⟩
    · rcases h'.of_operand with ⟨span', rest', hs', ht, hr', rfl⟩ | ⟨_, _, hs', ht, -⟩ | ⟨_, ht, -⟩
      · obtain ⟨rfl, rfl⟩ := Lexeme.span_eq hs hr hs' hr' ht
        rfl
      · exact absurd ht (Lexeme.number_ne_name hs hs')
      · exact absurd ht.symm (Lexeme.paren_ne_span hs)
    · rcases h'.of_operand with ⟨_, _, hs', ht, -⟩ | ⟨span', rest', hs', ht, hr', rfl⟩ | ⟨_, ht, -⟩
      · exact absurd ht.symm (Lexeme.number_ne_name hs' hs)
      · obtain ⟨rfl, rfl⟩ := Lexeme.span_eq hs hr hs' hr' ht
        rfl
      · exact absurd ht.symm (Lexeme.paren_ne_span hs)
    · rcases h'.of_operand with ⟨_, _, hs', ht, -⟩ | ⟨_, _, hs', ht, -⟩ | ⟨rest', ht, rfl⟩
      · exact absurd ht (Lexeme.paren_ne_span hs')
      · exact absurd ht (Lexeme.paren_ne_span hs')
      · cases ht
        rfl
  | operator outer sum product =>
    rcases h.of_operator with ⟨here, outer', rest, rfl, rfl, rfl⟩ | ⟨op, rest, rfl, rfl⟩ | ⟨op, rest, rfl, rfl⟩
    · rcases h'.of_operator with ⟨_, _, _, ho, ht, rfl⟩ | ⟨op', _, ht, -⟩ | ⟨op', _, ht, -⟩
      · cases ho
        cases ht
        rfl
      · cases op' <;> cases ht
      · cases op' <;> cases ht
    · rcases h'.of_operator with ⟨_, _, _, -, ht, -⟩ | ⟨op', _, ht, rfl⟩ | ⟨op', _, ht, -⟩
      · cases op <;> cases ht
      · cases op <;> cases op' <;> cases ht <;> rfl
      · cases op <;> cases op' <;> cases ht
    · rcases h'.of_operator with ⟨_, _, _, -, ht, -⟩ | ⟨op', _, ht, -⟩ | ⟨op', _, ht, rfl⟩
      · cases op <;> cases ht
      · cases op <;> cases op' <;> cases ht
      · cases op <;> cases op' <;> cases ht <;> rfl

/-- After a whole expression at the end of the text nothing can be read. -/
theorem not_finished : ¬ Reads (.operator [] sum product, []) q := by
  intro h
  rcases h.of_operator with ⟨_, _, _, ho, -⟩ | ⟨op, _, ht, -⟩ | ⟨op, _, ht, -⟩
  · cases ho
  · cases ht
  · cases ht

end Reads

/-! ## The text of a tree reads to the tree -/

namespace Tree

variable (rest : List Char)

theorem text_group_append (inner : Tree .expression) :
    (group inner).text ++ rest = '(' :: (inner.text ++ ')' :: rest) := by
  simp only [text, List.cons_append, List.append_assoc, List.nil_append]

theorem text_product_append (left : Tree .term) (op : ProductOperator) (right : Tree .factor) :
    (product left op right).text ++ rest = left.text ++ op.symbol :: (right.text ++ rest) := by
  simp only [text, List.append_assoc, List.cons_append]

theorem text_sum_append (left : Tree .expression) (op : SumOperator) (right : Tree .term) :
    (sum left op right).text ++ rest = left.text ++ op.symbol :: (right.text ++ rest) := by
  simp only [text, List.append_assoc, List.cons_append]

end Tree

/-- Whether an operand can end before this text. -/
def Stops (rest : List Char) : Prop := ∀ c ∈ rest.head?, c ∈ Lexeme.signs

theorem Stops.ends {rest : List Char} (h : Stops rest) (kind : Lexeme) : kind.Ends rest :=
  fun c hc => Lexeme.not_continues_of_mem_signs kind c (h c hc)

theorem stops_nil : Stops [] := fun _ h => by cases h

theorem stops_cons {c : Char} (rest : List Char) (h : c ∈ Lexeme.signs) : Stops (c :: rest) := fun c' hc' => by
  cases hc'
  exact h

open Relation (ReflTransGen)

mutual

theorem Tree.reads_factor {rest : List Char} (hr : Stops rest) (outer : List Opening) (here : Opening) :
    ∀ t : Tree .factor, ReflTransGen Reads (.operand outer here, t.text ++ rest)
      (.operator outer here.sum (.multiplyTo here.product t), rest)
  | .number span hs => .single (.number hs (hr.ends .number))
  | .name span hs => .single (.name hs (hr.ends .name))
  | .group inner => by
    have hclose := stops_cons rest (show ')' ∈ Lexeme.signs by decide)
    obtain ⟨sum, product, rfl, h⟩ := Tree.reads_expression hclose (here :: outer) inner
    rw [Tree.text_group_append]
    exact (ReflTransGen.single .opened).trans (h.tail .closed)
termination_by t => sizeOf t

theorem Tree.reads_term {rest : List Char} (hr : Stops rest) (outer : List Opening)
    (sum : Option (Tree .expression × SumOperator)) :
    ∀ t : Tree .term, ReflTransGen Reads (.operand outer ⟨sum, none⟩, t.text ++ rest) (.operator outer sum t, rest)
  | .factor only => Tree.reads_factor hr outer ⟨sum, none⟩ only
  | .product left op right => by
    have h := Tree.reads_term (stops_cons (right.text ++ rest) op.symbol_mem_signs) outer sum left
    rw [Tree.text_product_append]
    exact (h.tail (.times op)).trans (Tree.reads_factor hr outer ⟨sum, some (left, op)⟩ right)
termination_by t => sizeOf t

theorem Tree.reads_expression {rest : List Char} (hr : Stops rest) (outer : List Opening) :
    ∀ t : Tree .expression, ∃ sum product, Tree.addTo sum product = t ∧
      ReflTransGen Reads (.operand outer {}, t.text ++ rest) (.operator outer sum product, rest)
  | .term only => ⟨none, only, rfl, Tree.reads_term hr outer none only⟩
  | .sum left op right => by
    obtain ⟨sum, product, rfl, h⟩ :=
      Tree.reads_expression (stops_cons (right.text ++ rest) op.symbol_mem_signs) outer left
    rw [Tree.text_sum_append]
    exact ⟨some (.addTo sum product, op), right, rfl,
      (h.tail (.plus op)).trans (Tree.reads_term hr outer (some (.addTo sum product, op)) right)⟩
termination_by t => sizeOf t

end

/-- **A text has one tree at most.** -/
theorem Tree.text_inj {t t' : Tree .expression} (h : t.text = t'.text) : t = t' := by
  obtain ⟨sum, product, rfl, hr⟩ := t.reads_expression stops_nil []
  obtain ⟨sum', product', rfl, hr'⟩ := t'.reads_expression stops_nil []
  rw [← h] at hr'
  rcases ReflTransGen.total_of_right_unique Reads.rightUnique hr hr' with hrr | hrr
  · rcases hrr.cases_head with heq | ⟨q, hq, -⟩
    · cases heq
      rfl
    · exact absurd hq Reads.not_finished
  · rcases hrr.cases_head with heq | ⟨q, hq, -⟩
    · cases heq
      rfl
    · exact absurd hq Reads.not_finished

end Calculator
