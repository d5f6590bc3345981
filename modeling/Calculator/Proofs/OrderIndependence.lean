import Calculator.Proofs.Valuation
import Calculator.Session
/-!
# Proofs.OrderIndependence — a session evaluates its expressions in any order

When the reply to a name is always the same, no evaluation of a session changes the values of the names, so each
expression has the outcome that it would have as the first one.  Bindings and prompts only depend on which expressions
look which names up: a name that can be bound is asked for once if it is looked up at all, and one that cannot be is
asked for by every expression that comes to it.  None of this has an order (`Session.evaluateAll_perm`).
-/
namespace Calculator
namespace Session

variable {σ : Type}

/-- The expressions one after another: their evaluations, and the session afterwards. -/
def evaluateAll (s : Session σ) : List String → List Evaluation × Session σ
  | [] => ([], s)
  | expression :: rest =>
    let (e, next) := s.evaluate expression
    let (es, last) := next.evaluateAll rest
    (e :: es, last)

/-- The outcome of an expression by the values that the names have in the session, and the names it looks up. -/
def consult (s : Session σ) (reply : String → Reply) (expression : String) : Except Fault Float × List String :=
  (dialogueOf s.limit (withoutWhiteSpace expression)).consult (s.store.valuation reply)

/-- How often a name is asked for that comes up in so many expressions, by what it is bound to and what it is worth. -/
def promptCount : Option Float → Except Fault Float → Nat → Nat
  | some _, _, _ => 0
  | none, .ok _, times => min times 1
  | none, .error _, times => times

/-- One more expression, which is the first to run, adds to the prompts what it adds to the count. -/
theorem promptCount_add {bound after : Option Float} {value : Except Fault Float} {looked : Prop} [Decidable looked]
    (times : Nat) (h : ∀ w, after = some w ↔ bound = some w ∨ looked ∧ value = .ok w) :
    (if bound = none ∧ looked then 1 else 0) + promptCount after value times =
      promptCount bound value (times + if looked then 1 else 0) := by
  cases bound with
  | some w =>
    rw [(h w).2 (.inl rfl), if_neg fun hb => nomatch hb.1]
    rfl
  | none =>
    cases value with
    | error fault =>
      have hafter : after = none := Option.eq_none_iff_forall_ne_some.2 fun w hw => by
        rcases (h w).1 hw with hb | hb
        · cases hb
        · cases hb.2
      subst hafter
      by_cases hl : looked
      · rw [if_pos ⟨rfl, hl⟩, if_pos hl]
        exact Nat.add_comm 1 times
      · rw [if_neg fun hb => hl hb.2, if_neg hl]
        exact Nat.zero_add times
    | ok w =>
      by_cases hl : looked
      · rw [(h w).2 (.inr ⟨hl, rfl⟩), if_pos ⟨rfl, hl⟩, if_pos hl]
        exact (Nat.min_eq_right (Nat.le_add_left 1 times)).symm
      · have hafter : after = none := Option.eq_none_iff_forall_ne_some.2 fun w hw => by
          rcases (h w).1 hw with hb | hb
          · cases hb
          · exact hl hb.1
        rw [hafter, if_neg fun hb => hl hb.2, if_neg hl]
        exact Nat.zero_add _

theorem evaluateAll_cons (s : Session σ) (x : String) (rest : List String) :
    s.evaluateAll (x :: rest) =
      ((s.evaluate x).1 :: ((s.evaluate x).2.evaluateAll rest).1, ((s.evaluate x).2.evaluateAll rest).2) := rfl

section

variable {reply : String → Reply} {s : Session σ} (hask : ∀ name memory, ((s.ask name).run memory).1 = reply name)
include hask

theorem consults_evaluate (x : String) :
    (s.evaluate x).1.Consults reply (dialogueOf s.limit (withoutWhiteSpace x)) s.store :=
  Dialogue.consults_run hask _ s.store s.memory

/-- What an expression consults does not change when another one is evaluated first. -/
theorem consult_evaluate (x y : String) : (s.evaluate x).2.consult reply y = s.consult reply y :=
  congrArg (Dialogue.consult · _) (consults_evaluate hask x).valuation_eq

end

section

variable {reply : String → Reply}

theorem outcomes_evaluateAll : ∀ {s : Session σ} (l : List String),
    (∀ name memory, ((s.ask name).run memory).1 = reply name) →
      (s.evaluateAll l).1.map (·.outcome) = l.map fun x => (s.consult reply x).1
  | s, [], _ => rfl
  | s, x :: rest, hask => by
    have ih := outcomes_evaluateAll (s := (s.evaluate x).2) rest hask
    simp only [consult_evaluate hask] at ih
    rw [evaluateAll_cons, List.map_cons, List.map_cons, ih, (consults_evaluate hask x).outcome_eq]
    rfl

theorem get?_evaluateAll : ∀ {s : Session σ} (l : List String),
    (∀ name memory, ((s.ask name).run memory).1 = reply name) → ∀ name value,
      (s.evaluateAll l).2.store.get? name = some value ↔ s.store.get? name = some value ∨
        (∃ x ∈ l, name ∈ (s.consult reply x).2) ∧ s.store.valuation reply name = .ok value
  | s, [], _, name, value => by
    constructor
    · exact .inl
    · rintro (h | ⟨⟨x, hx, -⟩, -⟩)
      · exact h
      · cases hx
  | s, x :: rest, hask, name, value => by
    have ih := get?_evaluateAll (s := (s.evaluate x).2) rest hask name value
    have hx := consults_evaluate hask x
    have hvaluation : (s.evaluate x).2.store.valuation reply = s.store.valuation reply := hx.valuation_eq
    have hbound : (s.evaluate x).2.store.get? name = some value ↔ s.store.get? name = some value ∨
        name ∈ (s.consult reply x).2 ∧ s.store.valuation reply name = .ok value := hx.get?_iff name value
    simp only [consult_evaluate hask, hvaluation, hbound] at ih
    simp only [evaluateAll_cons, ih, List.mem_cons, exists_eq_or_imp]
    constructor
    · rintro ((h | ⟨hmem, hv⟩) | ⟨hmem, hv⟩)
      · exact .inl h
      · exact .inr ⟨.inl hmem, hv⟩
      · exact .inr ⟨.inr hmem, hv⟩
    · rintro (h | ⟨hmem | hmem, hv⟩)
      · exact .inl (.inl h)
      · exact .inl (.inr ⟨hmem, hv⟩)
      · exact .inr ⟨hmem, hv⟩

theorem count_evaluateAll : ∀ {s : Session σ} (l : List String),
    (∀ name memory, ((s.ask name).run memory).1 = reply name) → ∀ name,
      (s.evaluateAll l).2.prompts.count name = s.prompts.count name +
        promptCount (s.store.get? name) (s.store.valuation reply name)
          (l.countP fun x => name ∈ (s.consult reply x).2)
  | s, [], _, name => by
    have h : promptCount (s.store.get? name) (s.store.valuation reply name) 0 = 0 := by
      unfold promptCount
      split <;> rfl
    rw [List.countP_nil, h]
    rfl
  | s, x :: rest, hask, name => by
    have ih := count_evaluateAll (s := (s.evaluate x).2) rest hask name
    have hx := consults_evaluate hask x
    have hvaluation : (s.evaluate x).2.store.valuation reply = s.store.valuation reply := hx.valuation_eq
    have hbound := hx.get?_iff name
    have hprompts : (s.evaluate x).2.prompts = s.prompts ++ (s.evaluate x).1.prompts := rfl
    simp only [consult_evaluate hask, hvaluation, hprompts, List.count_append] at ih
    rw [evaluateAll_cons, ih, Nat.add_assoc, List.countP_cons, hx.count_prompts]
    simp only [decide_eq_true_eq]
    exact congrArg (s.prompts.count name + ·) (promptCount_add _ hbound)

end

/-- **The order does not matter.**  Each expression has the outcome that it has as the first one of the session, the
bindings at the end are the same, and so is the number of prompts for every name. -/
theorem evaluateAll_perm {s : Session σ} {reply : String → Reply}
    (hask : ∀ name memory, ((s.ask name).run memory).1 = reply name) {l l' : List String} (h : l.Perm l') :
    (s.evaluateAll l).1.map (·.outcome) = l.map (fun x => (s.evaluate x).1.outcome) ∧
    (s.evaluateAll l').1.map (·.outcome) = l'.map (fun x => (s.evaluate x).1.outcome) ∧
    (s.evaluateAll l).2.store = (s.evaluateAll l').2.store ∧
    ∀ name, (s.evaluateAll l).2.prompts.count name = (s.evaluateAll l').2.prompts.count name := by
  have hfirst : (fun x => (s.evaluate x).1.outcome) = fun x => (s.consult reply x).1 :=
    funext fun x => (consults_evaluate hask x).outcome_eq
  refine ⟨?_, ?_, Store.ext_get? fun name => Option.ext fun value => ?_, fun name => ?_⟩
  · rw [hfirst]
    exact outcomes_evaluateAll l hask
  · rw [hfirst]
    exact outcomes_evaluateAll l' hask
  · rw [get?_evaluateAll l hask, get?_evaluateAll l' hask]
    simp only [h.mem_iff]
  · rw [count_evaluateAll l hask, count_evaluateAll l' hask, h.countP_eq]

/-- Four expressions forwards and backwards, with a fault in each of the first two and a name that cannot be had. -/
theorem evaluateAll_perm_reverse :
    let reply : String → Reply := fun name => if name = "x" then .ok "2" else .error "unknown"
    let s : Session Nat := { ask := fun name => modifyGet fun asked => (reply name, asked + 1), memory := 0 }
    let l := ["x/0", "x+y", "x*x-1", "y"]
    (∀ name memory, ((s.ask name).run memory).1 = reply name) ∧ l.Perm l.reverse ∧
    (s.evaluateAll l).2.prompts = ["x", "y", "y"] ∧ (s.evaluateAll l.reverse).2.prompts = ["y", "x", "y"] ∧
    (s.evaluateAll l).1.map (·.outcome) = l.map (fun x => (s.evaluate x).1.outcome) ∧
    (s.evaluateAll l.reverse).1.map (·.outcome) = l.reverse.map (fun x => (s.evaluate x).1.outcome) ∧
    (s.evaluateAll l).2.store = (s.evaluateAll l.reverse).2.store ∧
    ∀ name, (s.evaluateAll l).2.prompts.count name = (s.evaluateAll l.reverse).2.prompts.count name := by
  intro reply s l
  have hask : ∀ name memory, ((s.ask name).run memory).1 = reply name := fun _ _ => rfl
  have hperm : l.Perm l.reverse := (List.reverse_perm l).symm
  exact ⟨hask, hperm, by decide +kernel, by decide +kernel, evaluateAll_perm hask hperm⟩

end Session
end Calculator
