import Calculator.Proofs.Descent
import Calculator.Proofs.Moment
/-!
# Proofs.DescentOutcome — recursive descent comes to the same

The machine keeps in a stack what the calls of a descent leave open between them: the operands so far, on each level
of parentheses.  Where a task begins with what is open outside of it, the machine comes to what it comes to where the
task ends (`Descent.Run.follows`).  So every run of a source comes to its evaluation (`Descent.Run.conclude_eq`).
-/
namespace Calculator
namespace Descent

open Machine (Config Moment Pending addTo supply)

variable {σ : Type} {ask : String → StateM σ Reply} {limit : Nat}

/-! ## What comes after a value -/

/-- The operators that the operands of a chain take for their own. -/
def Chain.below : Chain → List Char
  | term => []
  | expression => term.symbols

/-- What cannot come next before a task that goes on from a value. -/
def Task.behind : Task → List Char
  | loop c _ => c.below
  | _ => []

/-- What cannot come next after a task that has a value. -/
def Task.stops : Task → List Char
  | factor => []
  | chain c | loop c _ => c.symbols ++ c.below
  | round c _ => c.below

theorem Chain.stops_operand (c : Chain) : c.operand.stops = c.below := by cases c <;> rfl

theorem Chain.behind_operand (c : Chain) : c.operand.behind = [] := by cases c <;> rfl

namespace Run

variable {task : Task} {s s' : State σ} {outcome : Except Fault Float}

theorem apart (run : Run ask limit task s outcome s') (hs : s.Apart task.behind) {value : Float}
    (h : outcome = .ok value) : s'.Apart task.stops := by
  induction run generalizing value with
  | ended | strange | tooDeep | groupFailed | unclosed | failed | broken | operandFailed => cases h
  | number | name | group => exact .nil _
  | started first others ih ih' =>
    rw [Chain.behind_operand, Chain.stops_operand] at ih
    exact ih' (ih (.nil _) rfl) h
  | finished hn => exact hn.append hs
  | again round others ih ih' => exact ih' (ih (.nil _) rfl) h
  | applied hu hc right ih =>
    rw [Chain.behind_operand, Chain.stops_operand] at ih
    exact ih (.nil _) rfl

end Run

/-! ## The machine meanwhile -/

namespace State

/-- The moment of the machine before an operand. -/
def operand (s : State σ) (outer : List Pending) (here : Pending) : Moment σ :=
  ⟨.operand outer here s.unread, s.store, s.lookups, s.memory⟩

/-- The moment of the machine after an operand. -/
def operator (s : State σ) (outer : List Pending) (sum : Option (Float × SumOperator)) (product : Float) : Moment σ :=
  ⟨.operator outer sum product s.unread, s.store, s.lookups, s.memory⟩

def stop (s : State σ) (fault : Fault) : Evaluation × σ := (⟨.error fault, s.store, s.lookups, s.unread⟩, s.memory)

/-- What the machine comes to when the product so far is this. -/
def goOn (ask : String → StateM σ Reply) (limit : Nat) (s : State σ) (outer : List Pending)
    (sum : Option (Float × SumOperator)) : Except Fault Float → Evaluation × σ
  | .error fault => s.stop fault
  | .ok product => (s.operator outer sum product).finish ask limit

/-- What the machine comes to when the sum so far is this. -/
inductive Summed (ask : String → StateM σ Reply) (limit : Nat) (s : State σ) (outer : List Pending) :
    Except Fault Float → Evaluation × σ → Prop where
  | failed {fault : Fault} : Summed ask limit s outer (.error fault) (s.stop fault)
  | added {sum : Option (Float × SumOperator)} {product : Float} :
    Summed ask limit s outer (.ok (addTo sum product)) ((s.operator outer sum product).finish ask limit)

variable {s : State σ} {config : Config}

theorem finish_of_stop {fault : Fault} (h : Machine.step limit config = .stop (.error fault) s.unread) :
    Moment.finish ask limit ⟨config, s.store, s.lookups, s.memory⟩ = s.stop fault :=
  Moment.Ends.finish_eq (.stopped h)

theorem finish_of_supply {outer : List Pending} {here : Pending} {value : Float}
    (h : Machine.step limit config = supply outer here value s.unread) :
    Moment.finish ask limit ⟨config, s.store, s.lookups, s.memory⟩ =
      s.goOn ask limit outer here.sum (here.multiply value) := by
  cases hm : here.multiply value with
  | error fault =>
    rw [Machine.supply_of_error outer _ hm] at h
    exact finish_of_stop h
  | ok product =>
    rw [Machine.supply_of_ok outer _ hm] at h
    exact Moment.Goes.finish_eq (.moved h)

theorem finish_of_lookup {name : String} {outer : List Pending} {here : Pending} {rest : List Char}
    {found : Resolution} {memory : σ} (h : Machine.step limit config = .lookup name outer here rest)
    (hf : (s.store.resolve ask name).run s.memory = (found, memory)) :
    Moment.finish ask limit ⟨config, s.store, s.lookups, s.memory⟩ =
      (s.resolved rest found memory).goOn ask limit outer here.sum (found.value.bind here.multiply) := by
  cases hv : found.value with
  | error fault => exact Moment.Ends.finish_eq (.refused h hf hv)
  | ok value =>
    rw [Except.bind]
    cases hm : here.multiply value with
    | error fault => exact Moment.Ends.finish_eq (.divided h hf hv hm)
    | ok product => exact Moment.Goes.finish_eq (.resumed h hf hv hm)

end State

/-- Whether the machine, from where a task begins, comes to what it comes to from where the task ends. -/
def Task.Follows (ask : String → StateM σ Reply) (limit : Nat) (s : State σ) (outcome : Except Fault Float)
    (s' : State σ) : Task → Prop
  | factor => ∀ outer here, (outer.length : Int) = s.depth →
    (s.operand outer here).finish ask limit = s'.goOn ask limit outer here.sum (outcome.bind here.multiply)
  | chain .term => ∀ outer sum, (outer.length : Int) = s.depth →
    (s.operand outer ⟨sum, none⟩).finish ask limit = s'.goOn ask limit outer sum outcome
  | loop .term folded | round .term folded => ∀ outer sum, (outer.length : Int) = s.depth →
    (s.operator outer sum folded).finish ask limit = s'.goOn ask limit outer sum outcome
  | chain .expression => ∀ outer, (outer.length : Int) = s.depth →
    s'.Summed ask limit outer outcome ((s.operand outer {}).finish ask limit)
  | loop .expression folded | round .expression folded => ∀ outer sum product, (outer.length : Int) = s.depth →
    addTo sum product = folded → s'.Summed ask limit outer outcome ((s.operator outer sum product).finish ask limit)

theorem exists_productOperator {symbol : Char} (h : symbol ∈ Chain.term.symbols) :
    ∃ op : ProductOperator, symbol = op.symbol ∧ applySymbol symbol = op.apply := by
  simp only [Chain.symbols, List.mem_cons, List.not_mem_nil, or_false] at h
  rcases h with rfl | rfl
  · exact ⟨.times, rfl, rfl⟩
  · exact ⟨.dividedBy, rfl, rfl⟩

theorem exists_sumOperator {symbol : Char} (h : symbol ∈ Chain.expression.symbols) : ∃ op : SumOperator,
    symbol = op.symbol ∧ ∀ left right, applySymbol symbol left right = .ok (op.apply left right) := by
  simp only [Chain.symbols, List.mem_cons, List.not_mem_nil, or_false] at h
  rcases h with rfl | rfl
  · exact ⟨.plus, rfl, fun _ _ => rfl⟩
  · exact ⟨.minus, rfl, fun _ _ => rfl⟩

section

variable {s s' s'' : State σ} {outcome : Except Fault Float} {fault : Fault} {c : Chain} {folded value : Float}

theorem State.finish_opened {rest : List Char} {outer : List Pending} (here : Pending) (hu : s.unread = '(' :: rest)
    (hd : (outer.length : Int) = s.depth) (hlimit : s.depth + 1 ≤ limit) :
    (s.operand outer here).finish ask limit = ((s.opened rest).operand (here :: outer) {}).finish ask limit := by
  have hstep : Machine.step limit (.operand outer here s.unread) = .move (.operand (here :: outer) {} rest) := by
    rw [hu]
    exact Machine.step_of_rule (.opened (by omega))
  exact Moment.Goes.finish_eq (.moved hstep)

theorem State.Apart.signs (hs : s.Apart (Task.chain .expression).stops) (hc : s.unread.head? ≠ some ')') :
    s.Apart Lexeme.signs := by
  have hclose : s.Apart [')'] := fun _ h hmem => hc (List.mem_singleton.1 hmem ▸ h)
  exact hs.append hclose

/-- A group is left open where neither an operator nor the parenthesis that closes it comes next. -/
theorem State.finish_unclosed (hs : s.Apart (Task.chain .expression).stops) (hc : s.unread.head? ≠ some ')')
    (here : Pending) (outer : List Pending) (sum : Option (Float × SumOperator)) (product : Float) :
    (s.operator (here :: outer) sum product).finish ask limit = s.stop .mismatchedParenthesis := by
  have hstep : Machine.step limit (.operator (here :: outer) sum product s.unread) =
      .stop (.error .mismatchedParenthesis) s.unread := by
    rcases hu : s.unread with _ | ⟨c, rest⟩
    · rfl
    · exact Machine.step_of_rule (.unmatched (hs.signs hc c (by rw [hu]; rfl)))
  exact finish_of_stop hstep

theorem State.finish_closed {rest : List Char} (hu : s.unread = ')' :: rest) (here : Pending) (outer : List Pending)
    (sum : Option (Float × SumOperator)) (product : Float) :
    (s.operator (here :: outer) sum product).finish ask limit =
      (s.closed rest).goOn ask limit outer here.sum (here.multiply (addTo sum product)) := by
  have hstep : Machine.step limit (.operator (here :: outer) sum product s.unread) =
      supply outer here (addTo sum product) rest := by
    rw [hu]
    rfl
  exact finish_of_supply (s := s.closed rest) hstep

theorem follows_failed (h : c.operand.Follows ask limit s (.error fault) s') :
    (Task.chain c).Follows ask limit s (.error fault) s' := by
  cases c with
  | term => exact fun outer sum hd => h outer ⟨sum, none⟩ hd
  | expression =>
    -- the first term of an expression is one with no sum before it
    intro outer hd
    rw [show (s.operand outer {}).finish ask limit = s'.stop fault from h outer none hd]
    exact .failed

theorem follows_started (h : c.operand.Follows ask limit s (.ok value) s') (hdepth : s'.depth = s.depth)
    (h' : (Task.loop c value).Follows ask limit s' outcome s'') : (Task.chain c).Follows ask limit s outcome s'' := by
  cases c with
  | term => exact fun outer sum hd => (h outer ⟨sum, none⟩ hd).trans (h' outer sum (hd.trans hdepth.symm))
  | expression =>
    intro outer hd
    rw [show (s.operand outer {}).finish ask limit = _ from h outer none hd]
    exact h' outer none value (hd.trans hdepth.symm) rfl

theorem follows_finished (c : Chain) (folded : Float) (s : State σ) :
    (Task.loop c folded).Follows ask limit s (.ok folded) s := by
  cases c with
  | term => exact fun outer sum hd => rfl
  | expression =>
    rintro outer sum product hd rfl
    exact .added

theorem follows_broken (h : (Task.round c folded).Follows ask limit s (.error fault) s') :
    (Task.loop c folded).Follows ask limit s (.error fault) s' := by
  cases c <;> exact h

theorem follows_again (h : (Task.round c folded).Follows ask limit s (.ok value) s') (hdepth : s'.depth = s.depth)
    (h' : (Task.loop c value).Follows ask limit s' outcome s'') :
    (Task.loop c folded).Follows ask limit s outcome s'' := by
  cases c with
  | term => exact fun outer sum hd => (h outer sum hd).trans (h' outer sum (hd.trans hdepth.symm))
  | expression =>
    intro outer sum product hd hfolded
    generalize hfinish : (s.operator outer sum product).finish ask limit = r
    cases hfinish ▸ h outer sum product hd hfolded with
    | added => exact h' outer _ _ (hd.trans hdepth.symm) rfl

theorem follows_round {symbol : Char} {rest : List Char} (hu : s.unread = symbol :: rest) (hc : symbol ∈ c.symbols)
    (h : c.operand.Follows ask limit { s with unread := rest } outcome s') :
    (Task.round c folded).Follows ask limit s (outcome.bind (applySymbol symbol folded)) s' := by
  cases c with
  | term =>
    obtain ⟨op, rfl, happly⟩ := exists_productOperator hc
    intro outer sum hd
    have hstep : Machine.step limit (.operator outer sum folded s.unread) =
        .move (.operand outer ⟨sum, some (folded, op)⟩ rest) := by
      rw [hu]
      exact Machine.step_of_rule (.times op)
    rw [happly]
    exact (Moment.Goes.finish_eq (.moved hstep)).trans (h outer ⟨sum, some (folded, op)⟩ hd)
  | expression =>
    obtain ⟨op, rfl, happly⟩ := exists_sumOperator hc
    rintro outer sum product hd rfl
    have hstep : Machine.step limit (.operator outer sum product s.unread) =
        .move (.operand outer ⟨some (addTo sum product, op), none⟩ rest) := by
      rw [hu]
      exact Machine.step_of_rule (.plus op)
    have hfinish := (Moment.Goes.finish_eq (.moved hstep)).trans (h outer (some (addTo sum product, op)) hd)
    rw [show (s.operator outer sum product).finish ask limit = _ from hfinish]
    cases outcome with
    | error fault => exact .failed
    | ok value =>
      rw [Except.bind, happly]
      exact @State.Summed.added _ _ _ _ _ (some (addTo sum product, op)) value

end

/-- **The machine follows every run.** -/
theorem Run.follows {task : Task} {s s' : State σ} {outcome : Except Fault Float}
    (run : Run ask limit task s outcome s') : task.Follows ask limit s outcome s' := by
  induction run with
  | @ended s hu =>
    intro outer here hd
    have hstep : Machine.step limit (.operand outer here s.unread) = .stop (.error .unexpectedEnd) s.unread := by
      rw [hu]
      rfl
    exact State.finish_of_stop hstep
  | @number s span rest hu hs hr =>
    intro outer here hd
    cases hv : Number.read (String.ofList span) with
    | error fault =>
      have hstep : Machine.step limit (.operand outer here s.unread) = .stop (.error fault) rest := by
        rw [hu]
        exact Machine.operandStep_of_malformed limit outer here hs hr hv
      exact State.finish_of_stop (s := { s with unread := rest }) hstep
    | ok value =>
      have hstep : Machine.step limit (.operand outer here s.unread) = supply outer here value rest := by
        rw [hu]
        exact Machine.operandStep_of_number limit outer here hs hr hv
      exact State.finish_of_supply (s := { s with unread := rest }) hstep
  | @name s span rest found memory hu hs hr hf =>
    intro outer here hd
    have hstep : Machine.step limit (.operand outer here s.unread) = .lookup (String.ofList span) outer here rest := by
      rw [hu]
      exact Machine.operandStep_of_name limit outer here hs hr
    exact State.finish_of_lookup hstep hf
  | @strange s c rest hu hc hp =>
    intro outer here hd
    have hstep : Machine.step limit (.operand outer here s.unread) = .stop (.error (.unknownCharacter c)) s.unread := by
      rw [hu]
      exact Machine.step_of_rule (.strange hc hp)
    exact State.finish_of_stop hstep
  | @tooDeep s rest hu hlimit =>
    intro outer here hd
    have hstep : Machine.step limit (.operand outer here s.unread) = .stop (.error (.tooDeep limit)) rest := by
      rw [hu]
      exact Machine.step_of_rule (.tooDeep (by omega))
    exact State.finish_of_stop (s := s.opened rest) hstep
  | @groupFailed s s' rest fault hu hlimit inner ih =>
    intro outer here hd
    -- inside of the group, what waits for its value is outside
    rw [State.finish_opened here hu hd hlimit]
    generalize hfinish : ((s.opened rest).operand (here :: outer) {}).finish ask limit = r
    cases hfinish ▸ ih (here :: outer) (congrArg (· + 1) hd) with
    | failed => rfl
  | @unclosed s s' rest value hu hlimit inner hc ih =>
    intro outer here hd
    rw [State.finish_opened here hu hd hlimit]
    generalize hfinish : ((s.opened rest).operand (here :: outer) {}).finish ask limit = r
    cases hfinish ▸ ih (here :: outer) (congrArg (· + 1) hd) with
    | added => exact State.finish_unclosed (inner.apart (.nil _) rfl) hc here outer _ _
  | @group s s' rest rest' value hu hlimit inner hc ih =>
    intro outer here hd
    rw [State.finish_opened here hu hd hlimit]
    generalize hfinish : ((s.opened rest).operand (here :: outer) {}).finish ask limit = r
    cases hfinish ▸ ih (here :: outer) (congrArg (· + 1) hd) with
    | added => exact State.finish_closed hc here outer _ _
  | failed first ih => exact follows_failed ih
  | started first others ih ih' => exact follows_started ih (first.depth_eq rfl) ih'
  | finished hn => exact follows_finished _ _ _
  | broken round ih => exact follows_broken ih
  | again round others ih ih' => exact follows_again ih (round.depth_eq rfl) ih'
  | operandFailed hu hc right ih | applied hu hc right ih => exact follows_round hu hc ih

/-- What the value of the whole expression is worth before what is left of the text: nothing may be left. -/
def closing (value : Float) : List Char → Except Fault Float
  | [] => .ok value
  | c :: _ => .error (if c = ')' then .mismatchedParenthesis else .unknownCharacter c)

/-- The evaluation of a text whose expression has come to this. -/
def State.conclude (s : State σ) (outcome : Except Fault Float) : Evaluation × σ :=
  (⟨outcome.bind fun value => closing value s.unread, s.store, s.lookups, s.unread⟩, s.memory)

theorem State.finish_outermost {s : State σ} (hs : s.Apart (Task.chain .expression).stops)
    (sum : Option (Float × SumOperator)) (product : Float) :
    (s.operator [] sum product).finish ask limit = s.conclude (.ok (addTo sum product)) := by
  have hstep : Machine.step limit (.operator [] sum product s.unread) =
      .stop (closing (addTo sum product) s.unread) s.unread := by
    rcases hu : s.unread with _ | ⟨c, rest⟩
    · rfl
    by_cases hc : c = ')'
    · subst hc
      rfl
    · have hsigns := hs.signs (by rw [hu]; simpa using hc) c (by rw [hu]; rfl)
      rw [closing, if_neg hc]
      exact Machine.step_of_rule (.unknown hsigns)
  exact Moment.Ends.finish_eq (.stopped hstep)

/-- **Every run of a source comes to its evaluation.** -/
theorem Run.conclude_eq {source : String} {s : Store} {memory : σ} {outcome : Except Fault Float} {last : State σ}
    (run : Run ask limit (.chain .expression) (.start source s memory) outcome last) :
    (evaluateSource ask limit s source).run memory = last.conclude outcome := by
  have h := run.follows [] rfl
  generalize hfinish : ((State.start source s memory).operand [] {}).finish ask limit = r at h
  refine (run_evaluateSource ask limit s source memory).trans (hfinish.trans ?_)
  cases h with
  | failed => rfl
  | added => exact State.finish_outermost (run.apart (.nil _) rfl) _ _

end Descent
end Calculator
