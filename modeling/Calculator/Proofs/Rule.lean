import Calculator.Machine
import Calculator.Proofs.Span
/-!
# Proofs.Rule — what a step can do

One rule for each thing that can come next in a text (`Machine.Rule`).  A step follows exactly one of them
(`rule_iff`): what is said of steps elsewhere is said rule by rule, and `Machine.step` is not opened again.
-/
namespace Calculator

namespace SumOperator

theorem ofSymbol?_eq_some : ∀ {c : Char} {op : SumOperator}, ofSymbol? c = some op ↔ c = op.symbol
  | c, op => by
    constructor
    · intro h
      unfold ofSymbol? at h
      split at h <;> cases h <;> rfl
    · rintro rfl
      cases op <;> rfl

theorem symbol_mem_signs (op : SumOperator) : op.symbol ∈ Lexeme.signs := by cases op <;> decide

theorem ofSymbol?_of_not_mem_signs {c : Char} (h : c ∉ Lexeme.signs) : ofSymbol? c = none :=
  Option.eq_none_iff_forall_ne_some.2 fun op hop => by
    rw [ofSymbol?_eq_some.1 hop] at h
    exact h op.symbol_mem_signs

end SumOperator

namespace ProductOperator

theorem ofSymbol?_eq_some : ∀ {c : Char} {op : ProductOperator}, ofSymbol? c = some op ↔ c = op.symbol
  | c, op => by
    constructor
    · intro h
      unfold ofSymbol? at h
      split at h <;> cases h <;> rfl
    · rintro rfl
      cases op <;> rfl

theorem symbol_mem_signs (op : ProductOperator) : op.symbol ∈ Lexeme.signs := by cases op <;> decide

theorem ofSymbol?_of_not_mem_signs {c : Char} (h : c ∉ Lexeme.signs) : ofSymbol? c = none :=
  Option.eq_none_iff_forall_ne_some.2 fun op hop => by
    rw [ofSymbol?_eq_some.1 hop] at h
    exact h op.symbol_mem_signs

end ProductOperator

theorem Lexeme.ne_of_not_mem_signs {c : Char} (h : c ∉ signs) : c ≠ ')' := by
  rintro rfl
  exact h (by decide)

/-- A sign is an operator or closes a parenthesis. -/
theorem Lexeme.not_mem_signs {c : Char} (hp : ProductOperator.ofSymbol? c = none) (hs : SumOperator.ofSymbol? c = none)
    (h : c ≠ ')') : c ∉ signs := by
  intro hc
  simp only [signs, List.mem_cons, List.not_mem_nil, or_false] at hc
  rcases hc with rfl | rfl | rfl | rfl | rfl
  · cases hs
  · cases hs
  · cases hp
  · cases hp
  · exact h rfl

namespace Machine

/-- The rules that a step follows, by what comes next in the text. -/
inductive Rule (limit : Nat) : Config → Step → Prop where
  | ended {outer : List Pending} {here : Pending} :
    Rule limit (.operand outer here []) (.stop (.error .unexpectedEnd) [])
  | badNumber {outer : List Pending} {here : Pending} {span rest : List Char} {fault : Fault}
    (hs : Lexeme.number.covers span = true) (hr : Lexeme.number.Ends rest)
    (hf : Number.read (String.ofList span) = .error fault) :
    Rule limit (.operand outer here (span ++ rest)) (.stop (.error fault) rest)
  | divided {outer : List Pending} {here : Pending} {span rest : List Char} {value : Float} {fault : Fault}
    (hs : Lexeme.number.covers span = true) (hr : Lexeme.number.Ends rest)
    (hv : Number.read (String.ofList span) = .ok value) (hm : here.multiply value = .error fault) :
    Rule limit (.operand outer here (span ++ rest)) (.stop (.error fault) rest)
  | number {outer : List Pending} {here : Pending} {span rest : List Char} {value product : Float}
    (hs : Lexeme.number.covers span = true) (hr : Lexeme.number.Ends rest)
    (hv : Number.read (String.ofList span) = .ok value) (hm : here.multiply value = .ok product) :
    Rule limit (.operand outer here (span ++ rest)) (.move (.operator outer here.sum product rest))
  | name {outer : List Pending} {here : Pending} {span rest : List Char}
    (hs : Lexeme.name.covers span = true) (hr : Lexeme.name.Ends rest) :
    Rule limit (.operand outer here (span ++ rest)) (.lookup (String.ofList span) outer here rest)
  | tooDeep {outer : List Pending} {here : Pending} {rest : List Char} (hd : limit ≤ outer.length) :
    Rule limit (.operand outer here ('(' :: rest)) (.stop (.error (.tooDeep limit)) rest)
  | opened {outer : List Pending} {here : Pending} {rest : List Char} (hd : outer.length < limit) :
    Rule limit (.operand outer here ('(' :: rest)) (.move (.operand (here :: outer) {} rest))
  | strange {outer : List Pending} {here : Pending} {c : Char} {rest : List Char}
    (hc : Lexeme.ofChar? c = none) (hp : c ≠ '(') :
    Rule limit (.operand outer here (c :: rest)) (.stop (.error (.unknownCharacter c)) (c :: rest))
  | finished {sum : Option (Float × SumOperator)} {product : Float} :
    Rule limit (.operator [] sum product []) (.stop (.ok (addTo sum product)) [])
  | unclosed {outer : List Pending} {here : Pending} {sum : Option (Float × SumOperator)} {product : Float} :
    Rule limit (.operator (here :: outer) sum product []) (.stop (.error .mismatchedParenthesis) [])
  | times {outer : List Pending} {sum : Option (Float × SumOperator)} {product : Float} {rest : List Char}
    (op : ProductOperator) :
    Rule limit (.operator outer sum product (op.symbol :: rest))
      (.move (.operand outer ⟨sum, some (product, op)⟩ rest))
  | plus {outer : List Pending} {sum : Option (Float × SumOperator)} {product : Float} {rest : List Char}
    (op : SumOperator) :
    Rule limit (.operator outer sum product (op.symbol :: rest))
      (.move (.operand outer ⟨some (addTo sum product, op), none⟩ rest))
  | unopened {sum : Option (Float × SumOperator)} {product : Float} {rest : List Char} :
    Rule limit (.operator [] sum product (')' :: rest)) (.stop (.error .mismatchedParenthesis) (')' :: rest))
  | unknown {sum : Option (Float × SumOperator)} {product : Float} {c : Char} {rest : List Char}
    (hc : c ∉ Lexeme.signs) :
    Rule limit (.operator [] sum product (c :: rest)) (.stop (.error (.unknownCharacter c)) (c :: rest))
  | groupDivided {outer : List Pending} {here : Pending} {sum : Option (Float × SumOperator)} {product : Float}
    {fault : Fault} {rest : List Char} (hm : here.multiply (addTo sum product) = .error fault) :
    Rule limit (.operator (here :: outer) sum product (')' :: rest)) (.stop (.error fault) rest)
  | closed {outer : List Pending} {here : Pending} {sum : Option (Float × SumOperator)} {product value : Float}
    {rest : List Char} (hm : here.multiply (addTo sum product) = .ok value) :
    Rule limit (.operator (here :: outer) sum product (')' :: rest)) (.move (.operator outer here.sum value rest))
  | unmatched {outer : List Pending} {here : Pending} {sum : Option (Float × SumOperator)} {product : Float} {c : Char}
    {rest : List Char} (hc : c ∉ Lexeme.signs) :
    Rule limit (.operator (here :: outer) sum product (c :: rest)) (.stop (.error .mismatchedParenthesis) (c :: rest))

theorem supply_of_error {here : Pending} {value : Float} {fault : Fault} (outer : List Pending) (rest : List Char)
    (h : here.multiply value = .error fault) :
    supply outer here value rest = .stop (.error fault) rest := by
  unfold supply
  simp only [h]

theorem supply_of_ok {here : Pending} {value product : Float} (outer : List Pending) (rest : List Char)
    (h : here.multiply value = .ok product) :
    supply outer here value rest = .move (.operator outer here.sum product rest) := by
  unfold supply
  simp only [h]

theorem rule_operandStep (limit : Nat) (outer : List Pending) (here : Pending) :
    ∀ text : List Char, Rule limit (.operand outer here text) (operandStep limit outer here text)
  | [] => .ended
  | c :: rest => by
    simp only [operandStep]
    cases hc : Lexeme.ofChar? c with
    | none =>
      simp only
      by_cases hp : c = '('
      · subst hp
        rw [if_pos rfl]
        by_cases hd : limit ≤ outer.length
        · rw [if_pos hd]
          exact .tooDeep hd
        · rw [if_neg hd]
          exact .opened (Nat.lt_of_not_le hd)
      · rw [if_neg hp]
        exact .strange hc hp
    | some kind =>
      obtain ⟨span, tail, htext, hs, hr, hsplit⟩ := Lexeme.exists_split rest (Lexeme.starts_of_ofChar? hc)
      cases kind with
      | name =>
        simp only [hsplit]
        rw [htext]
        exact .name hs hr
      | number =>
        simp only [hsplit]
        rw [htext]
        cases hv : Number.read (String.ofList span) with
        | error fault => exact .badNumber hs hr hv
        | ok value =>
          cases hm : here.multiply value with
          | error fault =>
            simp only [supply_of_error outer tail hm]
            exact .divided hs hr hv hm
          | ok product =>
            simp only [supply_of_ok outer tail hm]
            exact .number hs hr hv hm

theorem rule_operatorStep (limit : Nat) (sum : Option (Float × SumOperator)) (product : Float) :
    ∀ (outer : List Pending) (text : List Char),
      Rule limit (.operator outer sum product text) (operatorStep outer sum product text)
  | [], [] => .finished
  | _ :: _, [] => .unclosed
  | outer, c :: rest => by
    simp only [operatorStep]
    cases hp : ProductOperator.ofSymbol? c with
    | some op =>
      obtain rfl := ProductOperator.ofSymbol?_eq_some.1 hp
      exact .times op
    | none =>
      cases hs : SumOperator.ofSymbol? c with
      | some op =>
        obtain rfl := SumOperator.ofSymbol?_eq_some.1 hs
        exact .plus op
      | none =>
        cases outer with
        | nil =>
          simp only
          by_cases hc : c = ')'
          · subst hc
            exact .unopened
          · rw [if_neg hc]
            exact .unknown (Lexeme.not_mem_signs hp hs hc)
        | cons here outer =>
          simp only
          by_cases hc : c = ')'
          · subst hc
            rw [if_pos rfl]
            cases hm : here.multiply (addTo sum product) with
            | error fault =>
              rw [supply_of_error outer rest hm]
              exact .groupDivided hm
            | ok value =>
              rw [supply_of_ok outer rest hm]
              exact .closed hm
          · rw [if_neg hc]
            exact .unmatched (Lexeme.not_mem_signs hp hs hc)

/-- **A step follows a rule.** -/
theorem rule_step (limit : Nat) : ∀ c : Config, Rule limit c (step limit c)
  | .operand outer here unread => rule_operandStep limit outer here unread
  | .operator outer sum product unread => rule_operatorStep limit sum product outer unread

section

variable (limit : Nat) (outer : List Pending) (here : Pending) {span rest : List Char}

theorem operandStep_of_malformed (hs : Lexeme.number.covers span = true) (hr : Lexeme.number.Ends rest) {fault : Fault}
    (hf : Number.read (String.ofList span) = .error fault) :
    operandStep limit outer here (span ++ rest) = .stop (.error fault) rest := by
  obtain ⟨c, tail, htext, hc, hsplit⟩ := Lexeme.exists_cons hs hr
  simp only [htext, operandStep, hc, hsplit, hf]

theorem operandStep_of_number (hs : Lexeme.number.covers span = true) (hr : Lexeme.number.Ends rest) {value : Float}
    (hv : Number.read (String.ofList span) = .ok value) :
    operandStep limit outer here (span ++ rest) = supply outer here value rest := by
  obtain ⟨c, tail, htext, hc, hsplit⟩ := Lexeme.exists_cons hs hr
  simp only [htext, operandStep, hc, hsplit, hv]

theorem operandStep_of_name (hs : Lexeme.name.covers span = true) (hr : Lexeme.name.Ends rest) :
    operandStep limit outer here (span ++ rest) = .lookup (String.ofList span) outer here rest := by
  obtain ⟨c, tail, htext, hc, hsplit⟩ := Lexeme.exists_cons hs hr
  simp only [htext, operandStep, hc, hsplit]

end

/-- **The rules exclude one another.** -/
theorem step_of_rule {limit : Nat} {config : Config} {s : Step} (h : Rule limit config s) : step limit config = s := by
  cases h with
  | ended | finished | unclosed | unopened => rfl
  | badNumber hs hr hf => rw [step, operandStep_of_malformed limit _ _ hs hr hf]
  | divided hs hr hv hm => rw [step, operandStep_of_number limit _ _ hs hr hv, supply_of_error _ _ hm]
  | number hs hr hv hm => rw [step, operandStep_of_number limit _ _ hs hr hv, supply_of_ok _ _ hm]
  | name hs hr => rw [step, operandStep_of_name limit _ _ hs hr]
  | tooDeep hd => exact if_pos hd
  | opened hd => exact if_neg (Nat.not_le.2 hd)
  | strange hc hp => simp only [step, operandStep, hc, if_neg hp]
  | times op => cases op <;> rfl
  | plus op => cases op <;> rfl
  | unknown hc =>
    have hp := Lexeme.ne_of_not_mem_signs hc
    simp only [step, operatorStep, ProductOperator.ofSymbol?_of_not_mem_signs hc,
      SumOperator.ofSymbol?_of_not_mem_signs hc, if_neg hp]
  | groupDivided hm => exact supply_of_error _ _ hm
  | closed hm => exact supply_of_ok _ _ hm
  | unmatched hc =>
    have hp := Lexeme.ne_of_not_mem_signs hc
    simp only [step, operatorStep, ProductOperator.ofSymbol?_of_not_mem_signs hc,
      SumOperator.ofSymbol?_of_not_mem_signs hc, if_neg hp]

theorem rule_iff {limit : Nat} {config : Config} {s : Step} : Rule limit config s ↔ step limit config = s :=
  ⟨step_of_rule, fun h => h ▸ rule_step limit config⟩

def Step.unread : Step → List Char
  | stop _ unread => unread
  | move next => next.unread
  | lookup _ _ _ unread => unread

/-- What a step leaves unread is the end of what there was to read. -/
theorem Rule.unread_suffix {limit : Nat} {config : Config} {s : Step} (h : Rule limit config s) :
    s.unread <:+ config.unread := by
  cases h with
  | badNumber | divided | number | name => exact List.suffix_append _ _
  | tooDeep | opened | times | plus | groupDivided | closed => exact List.suffix_cons _ _
  | ended | strange | finished | unclosed | unopened | unknown | unmatched => exact List.suffix_rfl

theorem of_step_lookup {limit : Nat} {config : Config} {name : String} {outer : List Pending} {here : Pending}
    {unread : List Char} (h : step limit config = .lookup name outer here unread) :
    ∃ span, config = .operand outer here (span ++ unread) ∧ name = String.ofList span ∧
      Lexeme.name.covers span = true ∧ Lexeme.name.Ends unread := by
  cases rule_iff.2 h with
  | name hs hr => exact ⟨_, rfl, rfl, hs, hr⟩

end Machine
end Calculator
