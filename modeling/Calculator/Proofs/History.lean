import Calculator.Proofs.Course
import Calculator.Proofs.Prompts
/-!
# Proofs.History — what a store remembers of all evaluations before

A history is any sequence of evaluations from the empty store, each with its own expression, limit and someone to
reply (`History`).  All its prompts together are one sequence that the empty store admits and that makes the store it
ends with, so the store holds for each name the one reply that was accepted, and nothing else (`Chronicle`).
-/
namespace Calculator

/-- The evaluations so far, in order, and the store that they lead to. -/
inductive History : List Evaluation → Store → Prop where
  | start : History [] .empty
  | next {es : List Evaluation} {s : Store} (h : History es s) {σ : Type} (ask : String → StateM σ Reply) (memory : σ)
    (limit : Nat) (expression : String) :
    History (es ++ [((evaluate ask limit s expression).run memory).1])
      ((evaluate ask limit s expression).run memory).1.store

def prompted (es : List Evaluation) : List Prompt := es.flatMap Evaluation.asked

/-- What holds after every step of a history. -/
structure Chronicle (es : List Evaluation) (s : Store) : Prop where
  /-- The store is what the prompts, one after another, have made of the empty one. -/
  store_eq : s = Store.empty.absorb (prompted es)
  /-- Each binding that there was after an earlier step is still there. -/
  kept : ∀ e ∈ es, ∀ name value, e.store.get? name = some value → s.get? name = some value
  /-- A name is bound just when one prompt for it, and only one, got a reply that writes a number: to that number. -/
  bound_iff : ∀ name value, s.get? name = some value ↔ ∃ text,
    (prompted es).filter (Prompt.binds name) = [(name, .ok text)] ∧ Number.read text = .ok value
  /-- No prompt for a name comes after the one that bound it. -/
  last : ∀ before p after, prompted es = before ++ p :: after → p.accepted = true → ∀ q ∈ after, q.1 ≠ p.1
  /-- Any other prompt was refused, was the last one of its evaluation, ended it with a fault, and left the store as it
  was before the prompt. -/
  refused : ∀ earlier e later, es = earlier ++ e :: later →
    ∀ before p after, e.asked = before ++ p :: after → p.accepted = false →
      after = [] ∧ (∃ fault, p.value = .error fault ∧ e.outcome = .error fault) ∧
        e.store = Store.empty.absorb (prompted earlier ++ before)
  /-- Within one evaluation no name is asked for twice. -/
  nodup : ∀ e ∈ es, e.prompts.Nodup
  size_eq : s.size = ((prompted es).filter Prompt.accepted).length
  /-- What is bound or asked for is a name. -/
  names : ∀ name, s.contains name = true ∨ name ∈ (prompted es).map Prod.fst → Lexeme.name.covers name.toList = true

theorem Prompt.exists_value_of_not_accepted {p : Prompt} (h : p.accepted = false) :
    ∃ fault, p.value = .error fault := by
  cases hv : p.value with
  | error fault => exact ⟨fault, rfl⟩
  | ok value =>
    rw [accepted_of_ok hv] at h
    cases h

theorem prompted_append (left right : List Evaluation) : prompted (left ++ right) = prompted left ++ prompted right :=
  List.flatMap_append

theorem prompted_singleton (e : Evaluation) : prompted [e] = e.asked := by
  rw [prompted, List.flatMap_cons, List.flatMap_nil, List.append_nil]

section

variable {σ : Type} (ask : String → StateM σ Reply) (limit : Nat) (s : Store) (expression : String) (memory : σ)

theorem exchange_evaluate : ((evaluate ask limit s expression).run memory).1.Exchange s :=
  (Dialogue.yields_run ask (dialogueOf limit (withoutWhiteSpace expression)) s memory).exchange

theorem covers_of_mem_asked {p : Prompt} (h : p ∈ ((evaluate ask limit s expression).run memory).1.asked) :
    Lexeme.name.covers p.1.toList = true := by
  obtain ⟨l, hl, hp⟩ := List.mem_filterMap.1 h
  have := (course_evaluateSource ask limit s (withoutWhiteSpace expression) memory).covers_name l hl
  cases l with
  | known name => cases hp
  | asked name reply =>
    cases hp
    exact this

end

namespace History

variable {es : List Evaluation} {s : Store}

/-- The prompts of a history make its store, and the empty store admits them. -/
theorem admits (h : History es s) : Store.empty.Admits (prompted es) ∧ s = Store.empty.absorb (prompted es) := by
  induction h with
  | start => exact ⟨trivial, rfl⟩
  | @next es s h σ ask memory limit expression ih =>
    have hx := exchange_evaluate ask limit s expression memory
    obtain ⟨hadmits, hstore⟩ := ih
    rw [prompted_append, prompted_singleton]
    refine ⟨Store.admits_append.2 ⟨hadmits, hstore ▸ hx.admits⟩, ?_⟩
    rw [Store.absorb_append, ← hstore]
    exact hx.store_eq

/-- Each evaluation of a history starts from what the ones before it have made. -/
theorem exchange (h : History es s) : ∀ earlier e later, es = earlier ++ e :: later →
    e.Exchange (Store.empty.absorb (prompted earlier)) := by
  induction h with
  | start =>
    intro earlier e later hes
    cases earlier <;> cases hes
  | @next es s h σ ask memory limit expression ih =>
    intro earlier e later hes
    rcases List.eq_nil_or_concat later with rfl | ⟨later, last, rfl⟩
    · obtain ⟨rfl, he⟩ := List.append_inj' hes rfl
      cases he
      rw [← h.admits.2]
      exact exchange_evaluate ask limit s expression memory
    · rw [List.concat_eq_append, ← List.cons_append, ← List.append_assoc] at hes
      exact ih earlier e later (List.append_inj' hes rfl).1

theorem le (h : History es s) : ∀ e ∈ es, e.store ≤ s := by
  intro e he
  obtain ⟨earlier, later, rfl⟩ := List.append_of_mem he
  have hx := h.exchange earlier e later rfl
  obtain ⟨hadmits, hstore⟩ := h.admits
  rw [List.append_cons, prompted_append, prompted_append, prompted_singleton] at hadmits hstore
  rw [hstore, hx.store_eq, Store.absorb_append, Store.absorb_append]
  rw [Store.admits_append, Store.absorb_append] at hadmits
  exact Store.le_absorb hadmits.2

theorem covers_of_mem (h : History es s) : ∀ p ∈ prompted es, Lexeme.name.covers p.1.toList = true := by
  induction h with
  | start => exact fun p hp => by cases hp
  | @next es s h σ ask memory limit expression ih =>
    intro p hp
    rw [prompted_append, prompted_singleton] at hp
    rcases List.mem_append.1 hp with hp | hp
    · exact ih p hp
    · exact covers_of_mem_asked ask limit s expression memory hp

theorem bound_iff (h : History es s) (name : String) (value : Float) :
    s.get? name = some value ↔ ∃ text,
      (prompted es).filter (Prompt.binds name) = [(name, .ok text)] ∧ Number.read text = .ok value := by
  obtain ⟨hadmits, hstore⟩ := h.admits
  rw [hstore, Store.get?_absorb_iff hadmits (Store.get?_empty name)]
  constructor
  · rintro ⟨reply, hfilter, hreply⟩
    cases reply with
    | error details => cases hreply
    | ok text => exact ⟨text, hfilter, hreply⟩
  · rintro ⟨text, hfilter, hread⟩
    exact ⟨.ok text, hfilter, hread⟩

theorem refused (h : History es s) (earlier : List Evaluation) (e : Evaluation) (later : List Evaluation)
    (hes : es = earlier ++ e :: later) (before : List Prompt) (p : Prompt) (after : List Prompt)
    (hasked : e.asked = before ++ p :: after) (hp : p.accepted = false) :
    after = [] ∧ (∃ fault, p.value = .error fault ∧ e.outcome = .error fault) ∧
      e.store = Store.empty.absorb (prompted earlier ++ before) := by
  have hx := h.exchange earlier e later hes
  obtain ⟨fault, hv⟩ := Prompt.exists_value_of_not_accepted hp
  obtain ⟨rfl, houtcome⟩ := hx.refused before p after fault hasked hv
  refine ⟨rfl, ⟨fault, hv, houtcome⟩, ?_⟩
  rw [hx.store_eq, hasked, Store.absorb_append, Store.absorb_append]
  exact Store.store_settle_of_error _ hv

theorem nodup (h : History es s) (e : Evaluation) (he : e ∈ es) : e.prompts.Nodup := by
  obtain ⟨earlier, later, hes⟩ := List.append_of_mem he
  rw [e.prompts_eq]
  exact Store.nodup_of_admits (h.exchange earlier e later hes).admits fun before p after hasked hp =>
    (h.refused earlier e later hes before p after hasked hp).1

theorem names (h : History es s) (name : String)
    (hname : s.contains name = true ∨ name ∈ (prompted es).map Prod.fst) :
    Lexeme.name.covers name.toList = true := by
  have hprompt : name ∈ (prompted es).map Prod.fst := by
    rcases hname with hbound | hmem
    · obtain ⟨value, hvalue⟩ := Option.isSome_iff_exists.1 hbound
      obtain ⟨text, hfilter, -⟩ := (h.bound_iff name value).1 hvalue
      have hp : (name, .ok text) ∈ (prompted es).filter (Prompt.binds name) := by
        rw [hfilter]
        exact List.mem_cons_self
      exact List.mem_map.2 ⟨_, (List.mem_filter.1 hp).1, rfl⟩
    · exact hmem
  obtain ⟨p, hp, rfl⟩ := List.mem_map.1 hprompt
  exact h.covers_of_mem p hp

/-- **What holds after every step of a history**, whatever is evaluated and whoever replies. -/
theorem chronicle (h : History es s) : Chronicle es s where
  store_eq := h.admits.2
  kept e he := h.le e he
  bound_iff := h.bound_iff
  last before p after hprompted hp := Store.ne_of_accepted (hprompted ▸ h.admits.1) hp
  refused := h.refused
  nodup := h.nodup
  size_eq := by
    obtain ⟨hadmits, hstore⟩ := h.admits
    rw [hstore, Store.size_absorb hadmits]
    exact Nat.zero_add _
  names := h.names

/-- A name whose first reply writes no number is asked for again, and only then bound. -/
theorem chronicle_of_retry :
    let ask : String → StateM (List Reply) Reply := fun _ => modifyGet fun left => (left.headD (.ok ""), left.tail)
    let first := ((evaluate ask 256 .empty "x+y").run [.ok "4", .ok "no"]).1
    let second := ((evaluate ask 0 first.store "x*y-x").run [.ok "2"]).1
    History [first, second] second.store ∧
      prompted [first, second] = [("x", .ok "4"), ("y", .ok "no"), ("y", .ok "2")] ∧
      Chronicle [first, second] second.store := by
  intro ask first second
  have h : History [first, second] second.store :=
    .next (.next .start ask [.ok "4", .ok "no"] 256 "x+y") ask [.ok "2"] 0 "x*y-x"
  exact ⟨h, by decide +kernel, h.chronicle⟩

end History
end Calculator
