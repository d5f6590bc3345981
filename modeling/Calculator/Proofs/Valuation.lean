import Calculator.Proofs.Yields
/-!
# Proofs.Valuation — an evaluation as a function of the values of its names

When the reply to a name is always the same, each name has one value: the one in the store, or else what its reply is
worth (`Store.valuation`).  No lookup changes these values, because a name is bound to the value that it had already.
So the outcome of a dialogue is a function of them (`Dialogue.consult`), and of the store only that part is new which
the dialogue has looked up.
-/
namespace Calculator

/-- The value that each name has, when `reply` is what everybody says. -/
def Store.valuation (s : Store) (reply : String → Reply) (name : String) : Except Fault Float :=
  match s.get? name with
  | some value => .ok value
  | none => Reply.value name (reply name)

/-- The outcome of a dialogue by the values of the names, and the names that it looks up, in order. -/
def Dialogue.consult (values : String → Except Fault Float) : Dialogue → Except Fault Float × List String
  | .done outcome _ => (outcome, [])
  | .lookup name _ proceed =>
    match values name with
    | .error fault => (.error fault, [name])
    | .ok value =>
      let (outcome, names) := (proceed value).consult values
      (outcome, name :: names)

namespace Store

variable {s : Store} {reply : String → Reply} {name : String}

theorem valuation_of_some (reply : String → Reply) {value : Float} (h : s.get? name = some value) :
    s.valuation reply name = .ok value := by
  unfold valuation
  rw [h]

theorem valuation_of_none (h : s.get? name = none) : s.valuation reply name = Reply.value name (reply name) := by
  unfold valuation
  rw [h]

/-- Binding a name to the value that it has changes no values. -/
theorem valuation_insert {value : Float} (h : s.valuation reply name = .ok value) :
    (s.insert name value).valuation reply = s.valuation reply := by
  funext other
  by_cases ho : other = name
  · subst ho
    rw [h, valuation_of_some reply (get?_insert_self s other value)]
  · unfold valuation
    rw [get?_insert, if_neg ho]

end Store

namespace Dialogue

theorem consult_lookup_of_error {values : String → Except Fault Float} {name : String} (unread : List Char)
    (proceed : Float → Dialogue) {fault : Fault} (h : values name = .error fault) :
    (lookup name unread proceed).consult values = (.error fault, [name]) := by
  rw [consult, h]

theorem consult_lookup_of_ok {values : String → Except Fault Float} {name : String} (unread : List Char)
    (proceed : Float → Dialogue) {value : Float} (h : values name = .ok value) :
    (lookup name unread proceed).consult values =
      (((proceed value).consult values).1, name :: ((proceed value).consult values).2) := by
  rw [consult, h]

end Dialogue

/-- What an evaluation of a dialogue on a store comes to, when `reply` is what everybody says. -/
structure Evaluation.Consults (reply : String → Reply) (d : Dialogue) (s : Store) (e : Evaluation) : Prop where
  outcome_eq : e.outcome = (d.consult (s.valuation reply)).1
  valuation_eq : e.store.valuation reply = s.valuation reply
  get?_iff : ∀ name value, e.store.get? name = some value ↔
    s.get? name = some value ∨ name ∈ (d.consult (s.valuation reply)).2 ∧ s.valuation reply name = .ok value
  count_prompts : ∀ name, e.prompts.count name =
    if s.get? name = none ∧ name ∈ (d.consult (s.valuation reply)).2 then 1 else 0

namespace Evaluation.Consults

variable {reply : String → Reply} {s : Store} {name : String} {unread : List Char} {proceed : Float → Dialogue}

theorem refused {fault : Fault} (hs : s.get? name = none) (hr : Reply.value name (reply name) = .error fault) :
    Consults reply (.lookup name unread proceed) s ⟨.error fault, s, [.asked name (reply name)], unread⟩ := by
  have hc := Dialogue.consult_lookup_of_error unread proceed
    ((Store.valuation_of_none hs).trans hr)
  refine ⟨by rw [hc], rfl, fun other value => ?_, fun other => ?_⟩
  · rw [hc]
    constructor
    · exact .inl
    · rintro (h | ⟨hmem, hvalue⟩)
      · exact h
      · rw [List.mem_singleton.1 hmem, Store.valuation_of_none hs, hr] at hvalue
        cases hvalue
  · rw [hc, show Evaluation.prompts _ = [name] from rfl, List.count_singleton]
    by_cases ho : other = name
    · subst ho
      simp [hs]
    · simp [ho, Ne.symm ho]

theorem known {value : Float} {e : Evaluation} (hs : s.get? name = some value)
    (he : Consults reply (proceed value) s e) :
    Consults reply (.lookup name unread proceed) s { e with lookups := .known name :: e.lookups } := by
  have hv := Store.valuation_of_some reply hs
  have hc := Dialogue.consult_lookup_of_ok unread proceed hv
  refine ⟨by rw [hc]; exact he.outcome_eq, he.valuation_eq, fun other bound => ?_, fun other => ?_⟩
  · rw [hc, List.mem_cons]
    refine (he.get?_iff other bound).trans ⟨?_, ?_⟩
    · rintro (h | ⟨hmem, hvalue⟩)
      · exact .inl h
      · exact .inr ⟨.inr hmem, hvalue⟩
    · rintro (h | ⟨rfl | hmem, hvalue⟩)
      · exact .inl h
      · rw [hv] at hvalue
        cases hvalue
        exact .inl hs
      · exact .inr ⟨hmem, hvalue⟩
  · simp only [hc, List.mem_cons]
    refine (he.count_prompts other).trans ?_
    by_cases ho : other = name
    · subst ho
      simp [hs]
    · simp [ho]

theorem accepted {value : Float} {e : Evaluation} (hs : s.get? name = none)
    (hr : Reply.value name (reply name) = .ok value) (he : Consults reply (proceed value) (s.insert name value) e) :
    Consults reply (.lookup name unread proceed) s { e with lookups := .asked name (reply name) :: e.lookups } := by
  have hv := (Store.valuation_of_none hs).trans hr
  have hi := Store.valuation_insert hv
  have hc := Dialogue.consult_lookup_of_ok unread proceed hv
  have hget : ∀ other, (s.insert name value).get? other = if other = name then some value else s.get? other :=
    fun other => Store.get?_insert s name other value
  obtain ⟨houtcome, hvaluation, hbound, hcount⟩ := he
  rw [hi] at houtcome hvaluation hbound hcount
  refine ⟨by rw [hc]; exact houtcome, hvaluation, fun other bound => ?_, fun other => ?_⟩
  · rw [hc, List.mem_cons]
    refine (hbound other bound).trans ?_
    rw [hget]
    by_cases ho : other = name
    · subst ho
      simp [hs, hv]
    · simp [ho]
  · simp only [hc, List.mem_cons]
    rw [show Evaluation.prompts _ = name :: e.prompts from rfl, List.count_cons, hcount, hget]
    by_cases ho : other = name
    · subst ho
      simp [hs]
    · simp [ho, Ne.symm ho]

end Evaluation.Consults

/-- **A run consults the values of the names**, whatever the one who replies remembers meanwhile. -/
theorem Dialogue.consults_run {σ : Type} {ask : String → StateM σ Reply} {reply : String → Reply}
    (hask : ∀ name memory, ((ask name).run memory).1 = reply name) (d : Dialogue) (s : Store) (memory : σ) :
    ((d.run ask s).run memory).1.Consults reply d s := by
  induction d generalizing s memory with
  | done outcome unread =>
    refine ⟨rfl, rfl, fun name value => ⟨.inl, ?_⟩, fun name => ?_⟩
    · rintro (h | ⟨hmem, -⟩)
      · exact h
      · cases hmem
    · exact (if_neg fun h => nomatch h.2).symm
  | lookup name unread proceed ih =>
    cases hs : s.get? name with
    | some value =>
      rw [run_of_ok (Store.run_resolve_known ask memory hs) rfl]
      exact .known hs (ih value s memory)
    | none =>
      have hrun := Store.run_resolve_asked ask memory hs
      rw [hask] at hrun
      cases hr : Reply.value name (reply name) with
      | error fault =>
        rw [Store.settle_of_error s hr] at hrun
        rw [run_of_error hrun rfl]
        exact .refused hs hr
      | ok value =>
        rw [Store.settle_of_ok s hr] at hrun
        rw [run_of_ok hrun rfl]
        exact .accepted hs hr (ih value _ _)

end Calculator
