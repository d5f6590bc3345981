import Calculator.Machine
import Calculator.Proofs.Span
/-!
# Proofs.Descent — evaluating by recursive descent

A term is a chain of factors and an expression is a chain of terms, so an expression can be evaluated by one call for
each expression, term and factor in it, with a loop that goes round once for each operator of a chain.  `Descent.Run`
is such an evaluation with all of its calls and rounds.  The calls share a state: what is left of the text, the
bindings, and a count of the open groups, which goes up where a group is opened, down where it is closed, and nowhere
else.  From every state there is a run (`Descent.exists_run`), because a call that has a value has read something
(`Descent.Run.least_le`).
-/
namespace Calculator
namespace Descent

/-- What is evaluated as operands of the same kind with operators between them. -/
inductive Chain where
  | term
  | expression
  deriving DecidableEq, Repr

/-- A factor and a chain are evaluated by a call.  A chain, once its first operand has a value, goes on with a loop: as
many rounds as there are operators, each of them with the value of all operands so far. -/
inductive Task where
  | factor
  | chain (c : Chain)
  | loop (c : Chain) (folded : Float)
  | round (c : Chain) (folded : Float)

namespace Chain

def operand : Chain → Task
  | term => .factor
  | expression => .chain .term

def symbols : Chain → List Char
  | term => ['*', '/']
  | expression => ['+', '-']

end Chain

/-- What the calls share. -/
structure State (σ : Type) where
  unread : List Char
  /-- How many groups are open. -/
  depth : Int
  store : Store
  lookups : List Lookup
  /-- What the one who replies remembers. -/
  memory : σ

namespace State

variable {σ : Type}

def start (source : String) (s : Store) (memory : σ) : State σ := ⟨source.toList, 0, s, [], memory⟩

/-- After the parenthesis that opens a group. -/
def opened (s : State σ) (rest : List Char) : State σ := { s with unread := rest, depth := s.depth + 1 }

/-- After the parenthesis that closes a group. -/
def closed (s : State σ) (rest : List Char) : State σ := { s with unread := rest, depth := s.depth - 1 }

/-- After the lookup of a name. -/
def resolved (s : State σ) (rest : List Char) (found : Resolution) (memory : σ) : State σ :=
  { s with unread := rest, store := found.store, lookups := s.lookups ++ [found.lookup], memory := memory }

/-- Whether none of these characters comes next. -/
def Apart (s : State σ) (symbols : List Char) : Prop := ∀ c ∈ s.unread.head?, c ∉ symbols

theorem Apart.nil (s : State σ) : s.Apart [] := fun _ _ => List.not_mem_nil

theorem Apart.append {s : State σ} {left right : List Char} (hl : s.Apart left) (hr : s.Apart right) :
    s.Apart (left ++ right) := fun c hc hmem =>
  (List.mem_append.1 hmem).elim (hl c hc) (hr c hc)

end State

variable {σ : Type} {ask : String → StateM σ Reply} {limit : Nat}

/-- A run of a task from a state: what it comes to, the state after it, and the runs that it is made of.  It is data,
so that these can be counted. -/
inductive Run (ask : String → StateM σ Reply) (limit : Nat) : Task → State σ → Except Fault Float → State σ → Type where
  | ended {s : State σ} (hu : s.unread = []) : Run ask limit .factor s (.error .unexpectedEnd) s
  | number {s : State σ} {span rest : List Char} (hu : s.unread = span ++ rest)
    (hs : Lexeme.number.covers span = true) (hr : Lexeme.number.Ends rest) :
    Run ask limit .factor s (Number.read (String.ofList span)) { s with unread := rest }
  | name {s : State σ} {span rest : List Char} {found : Resolution} {memory : σ} (hu : s.unread = span ++ rest)
    (hs : Lexeme.name.covers span = true) (hr : Lexeme.name.Ends rest)
    (hf : (s.store.resolve ask (String.ofList span)).run s.memory = (found, memory)) :
    Run ask limit .factor s found.value (s.resolved rest found memory)
  | strange {s : State σ} {c : Char} {rest : List Char} (hu : s.unread = c :: rest) (hc : Lexeme.ofChar? c = none)
    (hp : c ≠ '(') : Run ask limit .factor s (.error (.unknownCharacter c)) s
  /-- The parenthesis is read and counted before the limit is looked at. -/
  | tooDeep {s : State σ} {rest : List Char} (hu : s.unread = '(' :: rest) (hd : limit < s.depth + 1) :
    Run ask limit .factor s (.error (.tooDeep limit)) (s.opened rest)
  /-- Where a group is not closed the counter is not put back. -/
  | groupFailed {s s' : State σ} {rest : List Char} {fault : Fault} (hu : s.unread = '(' :: rest)
    (hd : s.depth + 1 ≤ limit) (inner : Run ask limit (.chain .expression) (s.opened rest) (.error fault) s') :
    Run ask limit .factor s (.error fault) s'
  | unclosed {s s' : State σ} {rest : List Char} {value : Float} (hu : s.unread = '(' :: rest)
    (hd : s.depth + 1 ≤ limit) (inner : Run ask limit (.chain .expression) (s.opened rest) (.ok value) s')
    (hc : s'.unread.head? ≠ some ')') : Run ask limit .factor s (.error .mismatchedParenthesis) s'
  | group {s s' : State σ} {rest rest' : List Char} {value : Float} (hu : s.unread = '(' :: rest)
    (hd : s.depth + 1 ≤ limit) (inner : Run ask limit (.chain .expression) (s.opened rest) (.ok value) s')
    (hc : s'.unread = ')' :: rest') : Run ask limit .factor s (.ok value) (s'.closed rest')
  | failed {c : Chain} {s s' : State σ} {fault : Fault} (first : Run ask limit c.operand s (.error fault) s') :
    Run ask limit (.chain c) s (.error fault) s'
  | started {c : Chain} {s s' s'' : State σ} {value : Float} {outcome : Except Fault Float}
    (first : Run ask limit c.operand s (.ok value) s') (others : Run ask limit (.loop c value) s' outcome s'') :
    Run ask limit (.chain c) s outcome s''
  | finished {c : Chain} {s : State σ} {folded : Float} (hn : s.Apart c.symbols) :
    Run ask limit (.loop c folded) s (.ok folded) s
  | broken {c : Chain} {s s' : State σ} {folded : Float} {fault : Fault}
    (round : Run ask limit (.round c folded) s (.error fault) s') :
    Run ask limit (.loop c folded) s (.error fault) s'
  | again {c : Chain} {s s' s'' : State σ} {folded value : Float} {outcome : Except Fault Float}
    (round : Run ask limit (.round c folded) s (.ok value) s') (others : Run ask limit (.loop c value) s' outcome s'') :
    Run ask limit (.loop c folded) s outcome s''
  | operandFailed {c : Chain} {s s' : State σ} {folded : Float} {symbol : Char} {rest : List Char} {fault : Fault}
    (hu : s.unread = symbol :: rest) (hc : symbol ∈ c.symbols)
    (right : Run ask limit c.operand { s with unread := rest } (.error fault) s') :
    Run ask limit (.round c folded) s (.error fault) s'
  | applied {c : Chain} {s s' : State σ} {folded value : Float} {symbol : Char} {rest : List Char}
    (hu : s.unread = symbol :: rest) (hc : symbol ∈ c.symbols)
    (right : Run ask limit c.operand { s with unread := rest } (.ok value) s') :
    Run ask limit (.round c folded) s (applySymbol symbol folded value) s'

/-! ## What a run reads -/

/-- How many characters a task reads at least, if it has a value. -/
def Task.least : Task → Nat
  | factor | chain _ | round _ _ => 1
  | loop _ _ => 0

@[simp] theorem Chain.least_operand (c : Chain) : c.operand.least = 1 := by cases c <;> rfl

namespace Run

variable {task : Task} {s s' : State σ} {outcome : Except Fault Float}

/-- The text is read from left to right. -/
theorem unread_suffix (run : Run ask limit task s outcome s') : s'.unread <:+ s.unread := by
  induction run with
  | ended | strange | finished => exact List.suffix_rfl
  | number hu | name hu => rw [hu]; exact List.suffix_append _ _
  | tooDeep hu => rw [hu]; exact List.suffix_cons _ _
  | groupFailed hu _ _ ih | unclosed hu _ _ _ ih | operandFailed hu _ _ ih | applied hu _ _ ih =>
    rw [hu]
    exact ih.trans (List.suffix_cons _ _)
  | @group s s' rest rest' value hu hd inner hc ih =>
    have hrest : rest' <:+ s'.unread := hc ▸ List.suffix_cons _ _
    rw [hu]
    exact hrest.trans (ih.trans (List.suffix_cons _ _))
  | failed _ ih | broken _ ih => exact ih
  | started _ _ ih ih' | again _ _ ih ih' => exact ih'.trans ih

/-- **A call that has a value has read something.** -/
theorem least_le (run : Run ask limit task s outcome s') {value : Float} (h : outcome = .ok value) :
    s'.unread.length + task.least ≤ s.unread.length := by
  induction run generalizing value with
  | ended | strange | tooDeep | groupFailed | unclosed | failed | broken | operandFailed => cases h
  | number hu hs | name hu hs =>
    obtain ⟨c, tail, rfl, -⟩ := Lexeme.covers_iff.1 hs
    simp only [hu, Task.least, State.resolved, List.length_append, List.length_cons]
    omega
  | group hu hd inner hc ih =>
    have hinner := ih rfl
    simp only [hu, hc, State.opened, State.closed, Task.least, List.length_cons] at hinner ⊢
    omega
  | started first others ih ih' =>
    have hfirst := ih rfl
    rw [Chain.least_operand] at hfirst
    exact Nat.le_trans (Nat.succ_le_succ (ih' h)) hfirst
  | finished => exact Nat.le_refl _
  | again round others ih ih' => exact Nat.le_trans (ih' h) (Nat.le_of_succ_le (ih rfl))
  | applied hu hc right ih =>
    rw [hu]
    exact Nat.succ_le_succ (Nat.le_of_add_right_le (ih rfl))

/-- **Every round reads something**, also one that fails. -/
theorem unread_lt {c : Chain} {folded : Float} (run : Run ask limit (.round c folded) s outcome s') :
    s'.unread.length < s.unread.length := by
  cases run with
  | operandFailed hu hc right | applied hu hc right =>
    rw [hu]
    exact Nat.lt_succ_of_le right.unread_suffix.length_le

/-- What has a value has closed the groups that it opened. -/
theorem depth_eq (run : Run ask limit task s outcome s') {value : Float} (h : outcome = .ok value) :
    s'.depth = s.depth := by
  induction run generalizing value with
  | ended | strange | tooDeep | groupFailed | unclosed | failed | broken | operandFailed => cases h
  | number | name | finished => rfl
  | group hu hd inner hc ih =>
    rw [State.closed, ih rfl]
    exact Int.add_sub_cancel _ _
  | started first others ih ih' | again first others ih ih' => exact (ih' h).trans (ih rfl)
  | applied hu hc right ih => exact ih rfl

end Run

/-! ## There is a run from every state -/

/-- What is due before what, where the text is the same. -/
def Task.rank : Task → Nat
  | factor | round _ _ => 0
  | loop _ _ => 1
  | chain .term => 2
  | chain .expression => 3

theorem Task.rank_le : ∀ task : Task, task.rank ≤ 3
  | factor | round _ _ => Nat.zero_le 3
  | loop _ _ | chain .term | chain .expression => by simp [rank]

theorem Chain.rank_operand_lt (c : Chain) : c.operand.rank < (Task.chain c).rank := by cases c <;> decide

theorem Chain.rank_loop_lt (c : Chain) (folded : Float) : (Task.loop c folded).rank < (Task.chain c).rank := by
  cases c <;> simp [Task.rank]

/-- A round is due where an operator of the chain comes next, and everything else anywhere. -/
def Task.Due (s : State σ) : Task → Prop
  | round c _ => ∃ symbol rest, s.unread = symbol :: rest ∧ symbol ∈ c.symbols
  | _ => True

theorem Chain.due_operand (c : Chain) (s : State σ) : c.operand.Due s := by cases c <;> trivial

/-- **From every state there is a run**, whatever the replies and the limit are. -/
theorem exists_run (ask : String → StateM σ Reply) (limit : Nat) (task : Task) (s : State σ) (h : task.Due s) :
    ∃ outcome s', Nonempty (Run ask limit task s outcome s') := by
  match task with
  | .factor =>
    rcases hu : s.unread with _ | ⟨c, rest⟩
    · exact ⟨_, _, ⟨.ended hu⟩⟩
    cases hc : Lexeme.ofChar? c with
    | some kind =>
      obtain ⟨span, tail, htext, hs, hr, -⟩ := Lexeme.exists_split rest (Lexeme.starts_of_ofChar? hc)
      cases kind with
      | number => exact ⟨_, _, ⟨.number (hu.trans htext) hs hr⟩⟩
      | name => exact ⟨_, _, ⟨.name (hu.trans htext) hs hr rfl⟩⟩
    | none =>
      by_cases hp : c = '('
      · subst hp
        by_cases hd : s.depth + 1 ≤ limit
        · obtain ⟨outcome, s', ⟨inner⟩⟩ := exists_run ask limit (.chain .expression) (s.opened rest) trivial
          cases outcome with
          | error fault => exact ⟨_, _, ⟨.groupFailed hu hd inner⟩⟩
          | ok value =>
            by_cases hclose : s'.unread.head? = some ')'
            · obtain ⟨rest', hrest'⟩ := List.head?_eq_some_iff.1 hclose
              exact ⟨_, _, ⟨.group hu hd inner hrest'⟩⟩
            · exact ⟨_, _, ⟨.unclosed hu hd inner hclose⟩⟩
        · exact ⟨_, _, ⟨.tooDeep hu (Int.lt_of_not_ge hd)⟩⟩
      · exact ⟨_, _, ⟨.strange hu hc hp⟩⟩
  | .chain c =>
    obtain ⟨outcome, s', ⟨first⟩⟩ := exists_run ask limit c.operand s (c.due_operand s)
    cases outcome with
    | error fault => exact ⟨_, _, ⟨.failed first⟩⟩
    | ok value =>
      have hread := first.least_le rfl
      obtain ⟨outcome, s'', ⟨others⟩⟩ := exists_run ask limit (.loop c value) s' trivial
      exact ⟨_, _, ⟨.started first others⟩⟩
  | .loop c folded =>
    by_cases hn : ∃ symbol rest, s.unread = symbol :: rest ∧ symbol ∈ c.symbols
    · obtain ⟨outcome, s', ⟨round⟩⟩ := exists_run ask limit (.round c folded) s hn
      cases outcome with
      | error fault => exact ⟨_, _, ⟨.broken round⟩⟩
      | ok value =>
        have hread := round.unread_lt
        obtain ⟨outcome, s'', ⟨others⟩⟩ := exists_run ask limit (.loop c value) s' trivial
        exact ⟨_, _, ⟨.again round others⟩⟩
    · refine ⟨_, _, ⟨.finished fun symbol hu hc => hn ?_⟩⟩
      obtain ⟨rest, hu⟩ := List.head?_eq_some_iff.1 hu
      exact ⟨symbol, rest, hu, hc⟩
  | .round c folded =>
    obtain ⟨symbol, rest, hu, hc⟩ := h
    obtain ⟨outcome, s', ⟨right⟩⟩ := exists_run ask limit c.operand { s with unread := rest } (c.due_operand _)
    cases outcome with
    | error fault => exact ⟨_, _, ⟨.operandFailed hu hc right⟩⟩
    | ok value => exact ⟨_, _, ⟨.applied hu hc right⟩⟩
-- either there is less text, or the same text and a task that is due earlier
termination_by 4 * s.unread.length + task.rank
decreasing_by
  · simp only [hu, State.opened, Task.rank, List.length_cons]
    omega
  · have := c.rank_operand_lt
    omega
  · have := c.rank_loop_lt value
    rw [Chain.least_operand] at hread
    omega
  · simp only [Task.rank]
    omega
  · simp only [Task.rank]
    omega
  · have := c.operand.rank_le
    simp only [hu, List.length_cons]
    omega

end Descent
end Calculator
