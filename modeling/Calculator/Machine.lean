import Calculator.Dialogue
import Calculator.Lexeme
import Calculator.Operator
/-!
# Machine — reading an expression and computing it in one pass

At any moment the text has been read up to some place, and all that matters of it is which operations wait for their
right operand, inside of which open parentheses.  There is one pending product at most, because products are computed
as soon as their right operand is known, and one pending sum at most, because a sum is computed before the next one
begins.  Every step reads at least one character, so there are no more steps than characters.
-/
namespace Calculator
namespace Machine

/-- The operations that wait for an operand on the same level of parentheses: a sum for a whole product, and a
product for its next factor. -/
structure Pending where
  sum : Option (Float × SumOperator) := none
  product : Option (Float × ProductOperator) := none

namespace Pending

/-- The product so far with its next factor. -/
def multiply (p : Pending) (factor : Float) : Except Fault Float :=
  match p.product with
  | none => .ok factor
  | some (left, op) => op.apply left factor

end Pending

/-- The sum so far with its next product. -/
def addTo (sum : Option (Float × SumOperator)) (product : Float) : Float :=
  match sum with
  | none => product
  | some (left, op) => op.apply left product

/-- Where the reading stands: before an operand or after one.  `outer` has an entry for each open parenthesis, the
innermost first: what waits for the value of the group. -/
inductive Config where
  | operand (outer : List Pending) (here : Pending) (unread : List Char)
  | operator (outer : List Pending) (sum : Option (Float × SumOperator)) (product : Float) (unread : List Char)

namespace Config

/-- The start of a text. -/
def start (text : List Char) : Config := operand [] {} text

def unread : Config → List Char
  | operand _ _ unread => unread
  | operator _ _ _ unread => unread

/-- How many parentheses are open. -/
def depth : Config → Nat
  | operand outer _ _ => outer.length
  | operator outer _ _ _ => outer.length

end Config

/-- What a step comes to. -/
inductive Step where
  | stop (outcome : Except Fault Float) (unread : List Char)
  | move (next : Config)
  /-- A variable is the next operand. -/
  | lookup (name : String) (outer : List Pending) (here : Pending) (unread : List Char)

/-- The value of an operand, put to use. -/
def supply (outer : List Pending) (here : Pending) (value : Float) (unread : List Char) : Step :=
  match here.multiply value with
  | .error fault => .stop (.error fault) unread
  | .ok product => .move (.operator outer here.sum product unread)

/-- A step before an operand. -/
def operandStep (limit : Nat) (outer : List Pending) (here : Pending) : List Char → Step
  | [] => .stop (.error .unexpectedEnd) []
  | c :: rest =>
    match Lexeme.ofChar? c with
    | some .number =>
      let (span, unread) := Lexeme.number.split (c :: rest)
      match Number.read (String.ofList span) with
      | .error fault => .stop (.error fault) unread
      | .ok value => supply outer here value unread
    | some .name =>
      let (span, unread) := Lexeme.name.split (c :: rest)
      .lookup (String.ofList span) outer here unread
    | none =>
      if c = '(' then
        if limit ≤ outer.length then .stop (.error (.tooDeep limit)) rest
        else .move (.operand (here :: outer) {} rest)
      else .stop (.error (.unknownCharacter c)) (c :: rest)

/-- A step after an operand. -/
def operatorStep (outer : List Pending) (sum : Option (Float × SumOperator)) (product : Float) : List Char → Step
  | [] =>
    match outer with
    | [] => .stop (.ok (addTo sum product)) []
    | _ :: _ => .stop (.error .mismatchedParenthesis) []
  | c :: rest =>
    match ProductOperator.ofSymbol? c, SumOperator.ofSymbol? c, outer with
    | some op, _, _ => .move (.operand outer ⟨sum, some (product, op)⟩ rest)
    | none, some op, _ => .move (.operand outer ⟨some (addTo sum product, op), none⟩ rest)
    | none, none, [] =>
      .stop (.error (if c = ')' then .mismatchedParenthesis else .unknownCharacter c)) (c :: rest)
    | none, none, here :: outer =>
      if c = ')' then supply outer here (addTo sum product) rest
      else .stop (.error .mismatchedParenthesis) (c :: rest)

def step (limit : Nat) : Config → Step
  | .operand outer here unread => operandStep limit outer here unread
  | .operator outer sum product unread => operatorStep outer sum product unread

/-! ## Every step reads something -/

theorem unread_of_supply {outer : List Pending} {here : Pending} {value : Float} {unread : List Char} {next : Config}
    (h : supply outer here value unread = .move next) : next.unread = unread := by
  unfold supply at h
  split at h <;> cases h
  rfl

theorem supply_ne_lookup {outer outer' : List Pending} {here here' : Pending} {value : Float} {name : String}
    {unread unread' : List Char} : supply outer here value unread ≠ .lookup name outer' here' unread' := by
  unfold supply
  split <;> simp

theorem length_lt_of_step_move {limit : Nat} {c next : Config} (h : step limit c = .move next) :
    next.unread.length < c.unread.length := by
  rcases c with ⟨outer, here, _ | ⟨c, rest⟩⟩ | ⟨outer, sum, product, _ | ⟨c, rest⟩⟩
  · cases h
  · simp only [step, operandStep] at h
    split at h
    · rename_i hc
      split at h
      · cases h
      · rw [unread_of_supply h]
        exact Lexeme.length_split_lt (Lexeme.starts_of_ofChar? hc)
    · cases h
    · split at h
      · split at h <;> cases h
        simp [Config.unread]
      · cases h
  · cases outer <;> cases h
  · simp only [step, operatorStep] at h
    split at h
    · cases h; simp [Config.unread]
    · cases h; simp [Config.unread]
    · cases h
    · split at h
      · rw [unread_of_supply h]; simp [Config.unread]
      · cases h

theorem length_lt_of_step_lookup {limit : Nat} {c : Config} {name : String} {outer : List Pending} {here : Pending}
    {unread : List Char} (h : step limit c = .lookup name outer here unread) : unread.length < c.unread.length := by
  rcases c with ⟨outer', here', _ | ⟨c, rest⟩⟩ | ⟨outer', sum, product, _ | ⟨c, rest⟩⟩
  · cases h
  · simp only [step, operandStep] at h
    split at h
    · split at h
      · cases h
      · exact absurd h supply_ne_lookup
    · rename_i hc
      cases h
      exact Lexeme.length_split_lt (Lexeme.starts_of_ofChar? hc)
    · split at h
      · split at h <;> cases h
      · cases h
  · cases outer' <;> cases h
  · simp only [step, operatorStep] at h
    split at h
    · cases h
    · cases h
    · cases h
    · split at h
      · exact absurd h supply_ne_lookup
      · cases h

/-- **The evaluation from a configuration on**, with at most `limit` parentheses open at a time. -/
def dialogue (limit : Nat) (c : Config) : Dialogue :=
  match _h : step limit c with
  | .stop outcome unread => .done outcome unread
  | .move next => dialogue limit next
  | .lookup name outer here unread =>
    .lookup name unread fun value =>
      match here.multiply value with
      | .error fault => .done (.error fault) unread
      | .ok product => dialogue limit (.operator outer here.sum product unread)
termination_by c.unread.length
decreasing_by
  · exact length_lt_of_step_move ‹_›
  · exact length_lt_of_step_lookup ‹_›

/-! ## One step at a time -/

theorem dialogue_of_stop {limit : Nat} {c : Config} {outcome : Except Fault Float} {unread : List Char}
    (h : step limit c = .stop outcome unread) : dialogue limit c = .done outcome unread := by
  rw [dialogue]
  split <;> simp_all

theorem dialogue_of_move {limit : Nat} {c next : Config} (h : step limit c = .move next) :
    dialogue limit c = dialogue limit next := by
  rw [dialogue]
  split <;> simp_all

/-- What follows the lookup of an operand. -/
def resume (limit : Nat) (outer : List Pending) (here : Pending) (unread : List Char) (value : Float) : Dialogue :=
  match here.multiply value with
  | .error fault => .done (.error fault) unread
  | .ok product => dialogue limit (.operator outer here.sum product unread)

theorem dialogue_of_lookup {limit : Nat} {c : Config} {name : String} {outer : List Pending} {here : Pending}
    {unread : List Char} (h : step limit c = .lookup name outer here unread) :
    dialogue limit c = .lookup name unread (resume limit outer here unread) := by
  rw [dialogue]
  split
  · simp_all
  · simp_all
  · rename_i h'
    rw [h] at h'
    cases h'
    rfl

end Machine
end Calculator
