import Calculator.Cursor
import Calculator.Proofs.DescentOutcome
import Calculator.Proofs.FaultPlace
/-!
# Proofs.DepthCounter — how far a descent gets, and how deep

At every state of a run the counter of open groups is what the text that has been read opens and does not close
(`Descent.State.Counted`), also where a group is left in a hurry and the counter is not put back.  So the limit bounds
how many calls for an expression are open at a time, and the length of the text bounds the counter, whatever the limit
is.  Each part of a run reads what it has to (`Descent.Part.Sound`), so the text also bounds how many factors are
evaluated.  All of this holds of every evaluation of a source (`evaluateSource_descent`).
-/
namespace Calculator

/-! ## Parentheses of a text -/

/-- How many more parentheses a text opens than it closes. -/
def balance (text : List Char) : Int := text.count '(' - text.count ')'

/-- Whether a text closes as many parentheses as it opens, and none that it has not opened. -/
structure Balanced (text : List Char) : Prop where
  balance_eq : balance text = 0
  nonneg : ∀ before, before <+: text → 0 ≤ balance before

@[simp] theorem balance_append (left right : List Char) : balance (left ++ right) = balance left + balance right := by
  simp only [balance, List.count_append]
  omega

theorem balance_open (text : List Char) : balance ('(' :: text) = 1 + balance text := balance_append ['('] text

theorem balance_of_plain {text : List Char} (h : ∀ c ∈ text, c ≠ '(' ∧ c ≠ ')') : balance text = 0 := by
  have hopen : text.count '(' = 0 := List.count_eq_zero.2 fun hc => (h _ hc).1 rfl
  have hclose : text.count ')' = 0 := List.count_eq_zero.2 fun hc => (h _ hc).2 rfl
  rw [balance, hopen, hclose]
  rfl

theorem balance_le_length (text : List Char) : balance text ≤ text.length := by
  have : text.count '(' ≤ text.length := List.count_le_length
  unfold balance
  omega

namespace Balanced

theorem of_plain {text : List Char} (h : ∀ c ∈ text, c ≠ '(' ∧ c ≠ ')') : Balanced text where
  balance_eq := balance_of_plain h
  nonneg _ hb := Int.le_of_eq (balance_of_plain fun c hc => h c (hb.subset hc)).symm

theorem append {left right : List Char} (hl : Balanced left) (hr : Balanced right) : Balanced (left ++ right) where
  balance_eq := by rw [balance_append, hl.balance_eq, hr.balance_eq]; rfl
  nonneg before hb := by
    rcases List.prefix_or_prefix_of_prefix hb (List.prefix_append left right) with hb' | ⟨more, rfl⟩
    · exact hl.nonneg before hb'
    · rw [balance_append, hl.balance_eq, Int.zero_add]
      exact hr.nonneg more ((List.prefix_append_right_inj left).1 hb)

theorem group {text : List Char} (h : Balanced text) : Balanced ('(' :: (text ++ [')'])) where
  balance_eq := by
    rw [balance_open, balance_append, h.balance_eq]
    decide
  nonneg before hb := by
    rcases List.prefix_cons_iff.1 hb with rfl | ⟨inner, rfl, hinner⟩
    · decide
    rw [balance_open]
    rcases List.prefix_concat_iff.1 hinner with rfl | hinner
    · rw [balance_append, h.balance_eq]
      decide
    · have := h.nonneg inner hinner
      omega

end Balanced

theorem length_le_byteLength : ∀ text : List Char, text.length ≤ byteLength text
  | [] => Nat.le_refl _
  | c :: rest => by
    have := c.utf8Size_pos
    have := length_le_byteLength rest
    rw [List.length_cons, byteLength]
    omega

namespace Descent

variable {σ : Type} {ask : String → StateM σ Reply} {limit : Nat}

/-! ## The parts of a run -/

/-- A call, a loop or a round, with the states where it begins and where it ends. -/
structure Part (σ : Type) where
  task : Task
  entry : State σ
  outcome : Except Fault Float
  exit : State σ

namespace Run

variable {task : Task} {s s' : State σ} {outcome : Except Fault Float}

def whole (_ : Run ask limit task s outcome s') : Part σ := ⟨task, s, outcome, s'⟩

/-- All parts of a run, in the order in which they begin. -/
def parts {task : Task} {s s' : State σ} {outcome : Except Fault Float} :
    Run ask limit task s outcome s' → List (Part σ)
  | run@(ended ..) | run@(number ..) | run@(name ..) | run@(strange ..) | run@(tooDeep ..) | run@(finished ..) =>
    [run.whole]
  | run@(groupFailed _ _ inner) | run@(unclosed _ _ inner _) | run@(group _ _ inner _) => run.whole :: inner.parts
  | run@(failed first) => run.whole :: first.parts
  | run@(started first others) => run.whole :: (first.parts ++ others.parts)
  | run@(broken round) => run.whole :: round.parts
  | run@(again round others) => run.whole :: (round.parts ++ others.parts)
  | run@(operandFailed _ _ right) | run@(applied _ _ right) => run.whole :: right.parts

theorem whole_mem_parts (run : Run ask limit task s outcome s') : run.whole ∈ run.parts := by
  cases run <;> exact List.mem_cons_self

end Run

/-- How many calls for an expression a task is itself. -/
def Task.calls : Task → Nat
  | chain .expression => 1
  | chain .term | factor | loop _ _ | round _ _ => 0

theorem Chain.calls_operand (c : Chain) : c.operand.calls = 0 := by cases c <;> rfl

def Task.isFactor : Task → Bool
  | factor => true
  | chain _ | loop _ _ | round _ _ => false

def Task.isCall : Task → Bool
  | factor | chain _ => true
  | loop _ _ | round _ _ => false

namespace Run

/-- How many calls for an expression are open at a time, at most. -/
def nesting {task : Task} {s s' : State σ} {outcome : Except Fault Float} : Run ask limit task s outcome s' → Nat
  | ended .. | number .. | name .. | strange .. | tooDeep .. | finished .. => 0
  | groupFailed _ _ inner | unclosed _ _ inner _ | group _ _ inner _ => inner.nesting
  | @failed _ _ _ c _ _ _ first => (Task.chain c).calls + first.nesting
  | @started _ _ _ c _ _ _ _ _ first others => (Task.chain c).calls + max first.nesting others.nesting
  | broken round => round.nesting
  | again round others => max round.nesting others.nesting
  | operandFailed _ _ right | applied _ _ right => right.nesting

end Run

/-- How many factors are evaluated in these parts. -/
def factorsIn (parts : List (Part σ)) : Nat := parts.countP (·.task.isFactor)

/-- How many factors have read nothing: only one that fails can. -/
def idle : Except Fault Float → Nat
  | .ok _ => 0
  | .error _ => 1

theorem idle_le_one : ∀ outcome : Except Fault Float, idle outcome ≤ 1
  | .ok _ => Nat.zero_le 1
  | .error _ => Nat.le_refl 1

theorem factorsIn_nil : factorsIn ([] : List (Part σ)) = 0 := rfl

theorem factorsIn_append (left right : List (Part σ)) :
    factorsIn (left ++ right) = factorsIn left + factorsIn right :=
  List.countP_append

theorem factorsIn_whole {task : Task} {s s' : State σ} {outcome : Except Fault Float}
    (run : Run ask limit task s outcome s') (others : List (Part σ)) :
    factorsIn (run.whole :: others) = factorsIn others + task.isFactor.toNat := by
  rw [factorsIn, List.countP_cons, factorsIn, Run.whole]
  cases task <;> rfl

/-! ## The counter, state by state -/

/-- Whether the counter of a state is right, and within its bounds, when the state is reached in this source. -/
structure State.Counted (source : List Char) (s : State σ) : Prop where
  /-- It counts what the text read so far has opened and not closed. -/
  counts : ∃ read, read ++ s.unread = source ∧ s.depth = balance read
  nonneg : 0 ≤ s.depth
  le_length : s.depth ≤ source.length

theorem State.counted_start (source : String) (store : Store) (memory : σ) :
    (State.start source store memory).Counted source.toList where
  counts := ⟨[], rfl, rfl⟩
  nonneg := Int.le_refl 0
  le_length := Int.natCast_nonneg _

theorem State.Counted.read {source : List Char} {s s' : State σ} (h : s.Counted source) {taken : List Char}
    (hu : s.unread = taken ++ s'.unread) (hd : s'.depth = s.depth + balance taken) (hn : 0 ≤ s'.depth) :
    s'.Counted source := by
  obtain ⟨read, hread, hdepth⟩ := h.counts
  have hcounts : s'.depth = balance (read ++ taken) := by rw [hd, hdepth, balance_append]
  have hsource : read ++ taken ++ s'.unread = source := by rw [List.append_assoc, ← hu, hread]
  refine ⟨⟨read ++ taken, hsource, hcounts⟩, hn, ?_⟩
  have hle : balance (read ++ taken) ≤ (read ++ taken).length := balance_le_length _
  have hlen := congrArg List.length hsource
  rw [List.length_append] at hlen
  omega

theorem State.Counted.opened {source rest : List Char} {s : State σ} (h : s.Counted source)
    (hu : s.unread = '(' :: rest) : (s.opened rest).Counted source := by
  have hread : s.unread = ['('] ++ rest := hu
  exact h.read hread rfl (Int.le_add_one h.nonneg)

/-- Text without parentheses leaves the counter as it is. -/
theorem State.Counted.plain {source taken : List Char} {s s' : State σ} (h : s.Counted source)
    (hu : s.unread = taken ++ s'.unread) (ht : ∀ c ∈ taken, c ≠ '(' ∧ c ≠ ')') (hd : s'.depth = s.depth) :
    s'.Counted source :=
  h.read hu (by rw [hd, balance_of_plain ht, Int.add_zero]) (hd ▸ h.nonneg)

theorem Chain.ne_paren {c : Chain} {symbol : Char} (h : symbol ∈ c.symbols) :
    ∀ d ∈ [symbol], d ≠ '(' ∧ d ≠ ')' := by
  intro d hd
  rw [List.mem_singleton.1 hd]
  cases c <;> simp only [symbols, List.mem_cons, List.not_mem_nil, or_false] at h <;> rcases h with rfl | rfl <;> decide

theorem State.Counted.read_symbol {source rest : List Char} {s : State σ} (h : s.Counted source) {c : Chain}
    {symbol : Char} (hu : s.unread = symbol :: rest) (hc : symbol ∈ c.symbols) :
    State.Counted source { s with unread := rest } := by
  have hread : s.unread = [symbol] ++ rest := hu
  exact h.plain hread (Chain.ne_paren hc) rfl

namespace Run

variable {task : Task} {s s' : State σ} {outcome : Except Fault Float}

/-- **Where a run ends the counter is right**, if it was right where the run began. -/
theorem counted {source : List Char} (run : Run ask limit task s outcome s') (h : s.Counted source) :
    s'.Counted source := by
  induction run with
  | ended | strange | finished => exact h
  | number hu hs hr | name hu hs hr => exact h.plain hu (Lexeme.ne_paren_of_covers hs) rfl
  | tooDeep hu => exact h.opened hu
  | groupFailed hu hd inner ih | unclosed hu hd inner hc ih => exact ih (h.opened hu)
  | @group s s' rest rest' value hu hd inner hc ih =>
    -- counting down does not go below zero, because the inner expression has left the counter as it was
    have hdepth : s'.depth = s.depth + 1 := inner.depth_eq rfl
    have hclosed : (s'.closed rest').depth = s.depth := by rw [State.closed, hdepth, Int.add_sub_cancel]
    have hread : s'.unread = [')'] ++ rest' := hc
    exact (ih (h.opened hu)).read hread rfl (hclosed ▸ h.nonneg)
  | failed first ih | broken round ih => exact ih h
  | started first others ih ih' | again round others ih ih' => exact ih' (ih h)
  | operandFailed hu hc right ih | applied hu hc right ih =>
    exact ih (h.read_symbol hu hc)

/-- **What has a value has read balanced text.** -/
theorem balanced (run : Run ask limit task s outcome s') {value : Float} (h : outcome = .ok value) :
    ∃ taken, s.unread = taken ++ s'.unread ∧ Balanced taken := by
  induction run generalizing value with
  | ended | strange | tooDeep | groupFailed | unclosed | failed | broken | operandFailed => cases h
  | number hu hs | name hu hs => exact ⟨_, hu, .of_plain (Lexeme.ne_paren_of_covers hs)⟩
  | group hu hd inner hc ih =>
    obtain ⟨taken, htaken, hbalanced⟩ := ih rfl
    rw [hc] at htaken
    exact ⟨_, (hu.trans (congrArg _ htaken)).trans (by simp [State.closed]), hbalanced.group⟩
  | started first others ih ih' | again first others ih ih' =>
    obtain ⟨taken, htaken, hbalanced⟩ := ih rfl
    obtain ⟨more, hmore, hbalanced'⟩ := ih' h
    exact ⟨taken ++ more, by rw [htaken, hmore, List.append_assoc], hbalanced.append hbalanced'⟩
  | finished => exact ⟨[], rfl, .of_plain fun _ hc => (List.not_mem_nil hc).elim⟩
  | applied hu hc right ih =>
    obtain ⟨taken, htaken, hbalanced⟩ := ih rfl
    exact ⟨_, hu.trans (congrArg _ htaken), (Balanced.of_plain (Chain.ne_paren hc)).append hbalanced⟩

end Run

/-! ## What holds of all parts -/

/-- What a part of a run reads, and what it does to the counter. -/
structure Part.Sound (limit : Nat) (source : List Char) (p : Part σ) : Prop where
  /-- Nothing is read twice. -/
  suffix : p.exit.unread <:+ p.entry.unread
  entry : p.entry.Counted source
  exit : p.exit.Counted source
  call : p.task.isCall = true → ∀ value, p.outcome = .ok value →
    ∃ taken, taken ≠ [] ∧ p.entry.unread = taken ++ p.exit.unread ∧ Balanced taken ∧ p.exit.depth = p.entry.depth
  /-- A round reads something, also one that fails. -/
  round : ∀ c folded, p.task = .round c folded → p.exit.unread.length < p.entry.unread.length
  expression : p.task = .chain .expression → p.entry.depth ≤ limit

namespace Run

variable {task : Task} {s s' : State σ} {outcome : Except Fault Float}

theorem sound {source : List Char} (run : Run ask limit task s outcome s') (hs : s.Counted source)
    (hd : s.depth ≤ limit) : run.whole.Sound limit source where
  suffix := run.unread_suffix
  entry := hs
  exit := run.counted hs
  call hcall value h := by
    obtain ⟨taken, htaken, hbalanced⟩ := run.balanced h
    refine ⟨taken, ?_, htaken, hbalanced, run.depth_eq h⟩
    rintro rfl
    have hle := run.least_le h
    have hleast : task.least = 1 := by
      cases task with
      | factor | chain => rfl
      | loop | round => cases hcall
    rw [htaken, hleast] at hle
    exact absurd hle (Nat.not_succ_le_self _)
  round c folded h := by
    subst h
    exact run.unread_lt
  expression _ := hd

/-- **All parts of a run are sound**, if it begins with no more groups open than the limit allows. -/
theorem sound_of_mem {source : List Char} (run : Run ask limit task s outcome s') (hs : s.Counted source)
    (hd : s.depth ≤ limit) : ∀ p ∈ run.parts, p.Sound limit source := by
  induction run with
  | ended | number | name | strange | tooDeep | finished =>
    simp only [parts, List.forall_mem_singleton]
    exact sound _ hs hd
  | groupFailed hu hlimit inner ih | unclosed hu hlimit inner hc ih | group hu hlimit inner hc ih =>
    simp only [parts, List.forall_mem_cons]
    exact ⟨sound _ hs hd, ih (hs.opened hu) hlimit⟩
  | failed first ih | broken round ih =>
    simp only [parts, List.forall_mem_cons]
    exact ⟨sound _ hs hd, ih hs hd⟩
  | started first others ih ih' | again first others ih ih' =>
    simp only [parts, List.forall_mem_cons, List.forall_mem_append]
    exact ⟨sound _ hs hd, ih hs hd, ih' (first.counted hs) (first.depth_eq rfl ▸ hd)⟩
  | operandFailed hu hc right ih | applied hu hc right ih =>
    simp only [parts, List.forall_mem_cons]
    exact ⟨sound _ hs hd, ih (hs.read_symbol hu hc) hd⟩

/-- **The limit bounds how many calls for an expression are open at a time.** -/
theorem nesting_add_depth_le (run : Run ask limit task s outcome s') (hd : s.depth ≤ limit) :
    run.nesting + s.depth ≤ limit + task.calls := by
  induction run with
  | ended | number | name | strange | tooDeep | finished =>
    simp only [nesting, Task.calls]
    omega
  | groupFailed hu hlimit inner ih | unclosed hu hlimit inner hc ih | group hu hlimit inner hc ih =>
    have hinner := ih hlimit
    simp only [nesting, Task.calls, State.opened] at hinner ⊢
    omega
  | failed first ih =>
    have hfirst := ih hd
    rw [Chain.calls_operand] at hfirst
    simp only [nesting]
    omega
  | @started c s s' s'' value outcome first others ih ih' =>
    have hdepth := first.depth_eq rfl
    have hfirst := ih hd
    have hothers : others.nesting + s'.depth ≤ limit + 0 := ih' (hdepth ▸ hd)
    rw [Chain.calls_operand] at hfirst
    simp only [nesting]
    omega
  | broken round ih => exact ih hd
  | again round others ih ih' =>
    have hdepth := round.depth_eq rfl
    have hround := ih hd
    have hothers := ih' (hdepth ▸ hd)
    simp only [nesting, Task.calls] at hround hothers ⊢
    omega
  | operandFailed hu hc right ih | applied hu hc right ih =>
    have hright := ih hd
    rwa [Chain.calls_operand] at hright

/-- **The text bounds how many factors are evaluated.** -/
theorem factors_add_length_le (run : Run ask limit task s outcome s') :
    factorsIn run.parts + s'.unread.length ≤ s.unread.length + idle outcome := by
  induction run with
  | ended | strange =>
    rw [parts, factorsIn_whole, factorsIn_nil]
    simp only [Task.isFactor, Bool.toNat_true, idle]
    omega
  | number hu hs | name hu hs =>
    obtain ⟨c, tail, rfl, -⟩ := Lexeme.covers_iff.1 hs
    rw [parts, factorsIn_whole, factorsIn_nil, hu]
    simp only [Task.isFactor, Bool.toNat_true, State.resolved, List.length_append, List.length_cons]
    omega
  | tooDeep hu =>
    rw [parts, factorsIn_whole, factorsIn_nil, hu]
    simp only [Task.isFactor, Bool.toNat_true, State.opened, List.length_cons, idle]
    omega
  | groupFailed hu hlimit inner ih | unclosed hu hlimit inner hc ih =>
    rw [parts, factorsIn_whole, hu]
    simp only [Task.isFactor, Bool.toNat_true, State.opened, List.length_cons, idle] at ih ⊢
    omega
  | group hu hlimit inner hc ih =>
    rw [parts, factorsIn_whole, hu]
    rw [hc] at ih
    simp only [Task.isFactor, Bool.toNat_true, State.opened, State.closed, List.length_cons, idle] at ih ⊢
    omega
  | failed first ih | broken round ih =>
    rw [parts, factorsIn_whole]
    exact ih
  | started first others ih ih' | again round others ih ih' =>
    rw [parts, factorsIn_whole, factorsIn_append]
    simp only [idle] at ih
    simp only [Task.isFactor, Bool.toNat_false]
    omega
  | operandFailed hu hc right ih | applied hu hc right ih =>
    rw [parts, factorsIn_whole, hu]
    simp only [Task.isFactor, Bool.toNat_false, List.length_cons, idle] at ih ⊢
    omega
  | finished =>
    rw [parts, factorsIn_whole, factorsIn_nil]
    simp only [Task.isFactor, Bool.toNat_false]
    omega

end Run

end Descent

open Descent (Run State factorsIn)

/-- **An evaluation by recursive descent gets on and keeps count.**  A source has such an evaluation, and it comes to
what `evaluateSource` comes to.  Each of its calls, loops and rounds is sound, and the counter of open groups fits into
a word where the size of the source does, whatever the limit is.  At most one call for an expression more than the
limit is open at a time, and at most one factor more than there are characters is evaluated. -/
theorem evaluateSource_descent {σ : Type} (ask : String → StateM σ Reply) (limit : Nat) (s : Store) (source : String)
    (memory : σ) :
    (∃ outcome last, Nonempty (Run ask limit (.chain .expression) (.start source s memory) outcome last)) ∧
    ∀ outcome last (run : Run ask limit (.chain .expression) (.start source s memory) outcome last),
      (evaluateSource ask limit s source).run memory = last.conclude outcome ∧
      (∀ p ∈ run.parts, p.Sound limit source.toList) ∧
      (byteLength source.toList < UInt64.size →
        ∀ p ∈ run.parts, p.entry.depth < UInt64.size ∧ p.exit.depth < UInt64.size) ∧
      run.nesting ≤ limit + 1 ∧ factorsIn run.parts ≤ source.length + 1 := by
  refine ⟨Descent.exists_run ask limit (.chain .expression) _ trivial, fun outcome last run => ?_⟩
  have hlimit : (State.start source s memory).depth ≤ limit := Int.natCast_nonneg limit
  have hsound := run.sound_of_mem (State.counted_start source s memory) hlimit
  refine ⟨run.conclude_eq, hsound, fun hbytes p hp => ?_, ?_, ?_⟩
  · have hle := length_le_byteLength source.toList
    have hentry : p.entry.depth ≤ source.toList.length := (hsound p hp).entry.le_length
    have hexit : p.exit.depth ≤ source.toList.length := (hsound p hp).exit.le_length
    omega
  · have hnesting : (run.nesting : Int) + 0 ≤ limit + 1 := run.nesting_add_depth_le hlimit
    omega
  · have hfactors := run.factors_add_length_le
    have hidle := Descent.idle_le_one outcome
    have hlength : (State.start source s memory).unread.length = source.length := String.length_toList
    omega

/-- With the greatest limit there is, three groups are opened and the counter is left at three. -/
theorem evaluateSource_descent_unclosed :
    let ask : String → StateM Nat Reply := fun _ => modifyGet fun asked => (.ok "2", asked + 1)
    let source := "(x*((7+"
    let limit := UInt64.size - 1
    byteLength source.toList < UInt64.size ∧
    ∃ outcome last, ∃ run : Run ask limit (.chain .expression) (.start source .empty 0) outcome last,
      last.unread = [] ∧ last.depth = 3 ∧ last.memory = 1 ∧
      (evaluateSource ask limit .empty source).run 0 = last.conclude outcome ∧
      (∀ p ∈ run.parts, p.Sound limit source.toList ∧ p.exit.depth < UInt64.size) ∧
      run.nesting ≤ UInt64.size ∧ factorsIn run.parts ≤ source.length + 1 := by
  intro ask source limit
  have hbytes : byteLength source.toList < UInt64.size := by decide
  obtain ⟨⟨outcome, last, ⟨run⟩⟩, hall⟩ := evaluateSource_descent ask limit .empty source 0
  obtain ⟨hrun, hsound, hdepth, hnesting, hfactors⟩ := hall outcome last run
  have hunread : last.unread = [] := (congrArg (·.1.unread) hrun).symm.trans (by decide +kernel)
  have hmemory : last.memory = 1 := (congrArg (·.2) hrun).symm.trans (by decide +kernel)
  obtain ⟨read, hread, hcounts⟩ := (hsound run.whole run.whole_mem_parts).exit.counts
  refine ⟨hbytes, outcome, last, run, hunread, ?_, hmemory, hrun,
    fun p hp => ⟨hsound p hp, (hdepth hbytes p hp).2⟩, hnesting, hfactors⟩
  have hread : read = source.toList := by
    rw [← hread, show run.whole.exit.unread = [] from hunread, List.append_nil]
  rw [show last.depth = balance read from hcounts, hread]
  decide

end Calculator
