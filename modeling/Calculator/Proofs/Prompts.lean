import Calculator.Proofs.Yields
/-!
# Proofs.Prompts — what a sequence of prompts does to a store

A store admits a sequence of prompts when each one is for a name that is unbound by then (`Store.Admits`).  In such a
sequence a name is bound by the one prompt for it that is accepted, and never asked for again.  The prompts of every
evaluation are admitted by its store, they make its final store, and only the last of them can be refused
(`Dialogue.Yields.exchange`).
-/
namespace Calculator

/-- A name that was asked for, and the reply. -/
abbrev Prompt := String × Reply

namespace Prompt

def value (p : Prompt) : Except Fault Float := Reply.value p.1 p.2

/-- Whether the reply writes a number. -/
def accepted (p : Prompt) : Bool :=
  match p.value with
  | .ok _ => true
  | .error _ => false

theorem accepted_of_ok {p : Prompt} {value : Float} (h : p.value = .ok value) : p.accepted = true := by
  unfold accepted
  rw [h]

theorem accepted_of_error {p : Prompt} {fault : Fault} (h : p.value = .error fault) : p.accepted = false := by
  unfold accepted
  rw [h]

/-- Whether the prompt is what bound the name. -/
def binds (name : String) (p : Prompt) : Bool := p.1 == name && p.accepted

end Prompt

def Lookup.asked? : Lookup → Option Prompt
  | known _ => none
  | asked name reply => some (name, reply)

/-- The prompts of an evaluation with their replies, in order. -/
def Evaluation.asked (e : Evaluation) : List Prompt := e.lookups.filterMap Lookup.asked?

theorem Lookup.prompt?_eq (l : Lookup) : l.prompt? = l.asked?.map Prod.fst := by
  cases l <;> rfl

theorem Evaluation.prompts_eq (e : Evaluation) : e.prompts = e.asked.map Prod.fst := by
  unfold prompts asked
  rw [List.map_filterMap]
  exact congrArg (fun f => List.filterMap f e.lookups) (funext Lookup.prompt?_eq)

namespace Store

def absorb (s : Store) (prompts : List Prompt) : Store := prompts.foldl (fun s p => (s.settle p.1 p.2).store) s

/-- Whether each prompt is for a name that is unbound when it comes. -/
def Admits : Store → List Prompt → Prop
  | _, [] => True
  | s, p :: rest => s.get? p.1 = none ∧ Admits (s.settle p.1 p.2).store rest

theorem store_settle_of_ok (s : Store) {p : Prompt} {value : Float} (h : p.value = .ok value) :
    (s.settle p.1 p.2).store = s.insert p.1 value := by
  rw [settle_of_ok s h]

theorem store_settle_of_error (s : Store) {p : Prompt} {fault : Fault} (h : p.value = .error fault) :
    (s.settle p.1 p.2).store = s := by
  rw [settle_of_error s h]

theorem absorb_cons (s : Store) (p : Prompt) (rest : List Prompt) :
    s.absorb (p :: rest) = (s.settle p.1 p.2).store.absorb rest := rfl

theorem absorb_append (s : Store) (left right : List Prompt) :
    s.absorb (left ++ right) = (s.absorb left).absorb right :=
  List.foldl_append

theorem admits_append : ∀ {s : Store} {left right : List Prompt},
    s.Admits (left ++ right) ↔ s.Admits left ∧ (s.absorb left).Admits right
  | s, [], right => ⟨fun h => ⟨trivial, h⟩, fun h => h.2⟩
  | s, p :: left, right => by
    rw [List.cons_append, absorb_cons, Admits, Admits, admits_append]
    exact and_assoc.symm

theorem le_settle {s : Store} {p : Prompt} (h : s.get? p.1 = none) : s ≤ (s.settle p.1 p.2).store :=
  (resolves_settle p.2 h).le

theorem le_absorb : ∀ {s : Store} {prompts : List Prompt}, s.Admits prompts → s ≤ s.absorb prompts
  | s, [], _ => le_refl s
  | _, _ :: _, h => le_trans (le_settle h.1) (le_absorb h.2)

theorem ne_of_admits {name : String} {value : Float} : ∀ {s : Store} {prompts : List Prompt},
    s.Admits prompts → s.get? name = some value → ∀ p ∈ prompts, p.1 ≠ name
  | s, p :: rest, h, hs, q, hq => by
    rcases List.mem_cons.1 hq with rfl | hq
    · intro hn
      rw [← hn, h.1] at hs
      cases hs
    · exact ne_of_admits h.2 (le_settle h.1 name value hs) q hq

theorem ne_of_accepted {s : Store} {before after : List Prompt} {p : Prompt} (h : s.Admits (before ++ p :: after))
    (hp : p.accepted = true) : ∀ q ∈ after, q.1 ≠ p.1 := by
  obtain ⟨-, -, hafter⟩ := admits_append.1 h
  cases hv : p.value with
  | error fault =>
    rw [Prompt.accepted_of_error hv] at hp
    cases hp
  | ok value =>
    rw [store_settle_of_ok _ hv] at hafter
    exact ne_of_admits hafter (get?_insert_self _ p.1 value)

theorem get?_absorb_of_ne {name : String} : ∀ {s : Store} {prompts : List Prompt},
    (∀ p ∈ prompts, p.1 ≠ name) → (s.absorb prompts).get? name = s.get? name
  | _, [], _ => rfl
  | s, p :: rest, h => by
    rw [absorb_cons, get?_absorb_of_ne fun q hq => h q (List.mem_cons_of_mem p hq)]
    cases hv : p.value with
    | error fault => rw [store_settle_of_error s hv]
    | ok value => rw [store_settle_of_ok s hv, get?_insert, if_neg (h p List.mem_cons_self).symm]

theorem filter_binds_of_ne {name : String} {prompts : List Prompt} (h : ∀ p ∈ prompts, p.1 ≠ name) :
    prompts.filter (Prompt.binds name) = [] := by
  refine List.filter_eq_nil_iff.2 fun p hp hb => h p hp ?_
  rw [Prompt.binds, Bool.and_eq_true, beq_iff_eq] at hb
  exact hb.1

/-- **An unbound name is bound by the one prompt for it that is accepted**, to what that reply is worth. -/
theorem get?_absorb_iff {name : String} {value : Float} : ∀ {s : Store} {prompts : List Prompt},
    s.Admits prompts → s.get? name = none →
      ((s.absorb prompts).get? name = some value ↔
        ∃ reply, prompts.filter (Prompt.binds name) = [(name, reply)] ∧ Reply.value name reply = .ok value)
  | s, [], _, hs => by
    constructor
    · intro h
      rw [show s.absorb [] = s from rfl, hs] at h
      cases h
    · rintro ⟨reply, h, -⟩
      cases h
  | s, p :: rest, h, hs => by
    rw [absorb_cons, List.filter_cons]
    cases hv : p.value with
    | error fault =>
      have hb : ¬ p.binds name = true := by simp [Prompt.binds, Prompt.accepted_of_error hv]
      obtain ⟨-, hrest⟩ := h
      rw [store_settle_of_error s hv] at hrest ⊢
      rw [if_neg hb]
      exact get?_absorb_iff hrest hs
    | ok bound =>
      obtain ⟨-, hrest⟩ := h
      rw [store_settle_of_ok s hv] at hrest ⊢
      by_cases hn : p.1 = name
      · have hb : p.binds name = true := by simp [Prompt.binds, Prompt.accepted_of_ok hv, hn]
        have hself := get?_insert_self s p.1 bound
        rw [if_pos hb, filter_binds_of_ne (hn ▸ ne_of_admits hrest hself), ← hn, le_absorb hrest _ _ hself]
        constructor
        · intro hvalue
          cases hvalue
          exact ⟨p.2, rfl, hv⟩
        · rintro ⟨reply, hp, hreply⟩
          have hsnd : p.2 = reply := congrArg Prod.snd (List.cons.inj hp).1
          rw [Prompt.value, hsnd, hreply] at hv
          cases hv
          rfl
      · have hb : ¬ p.binds name = true := by simp [Prompt.binds, hn]
        rw [if_neg hb]
        refine get?_absorb_iff hrest ?_
        rw [get?_insert, if_neg (Ne.symm hn), hs]

/-- Each accepted prompt binds one more name, and no other prompt does. -/
theorem size_absorb : ∀ {s : Store} {prompts : List Prompt}, s.Admits prompts →
    (s.absorb prompts).size = s.size + (prompts.filter Prompt.accepted).length
  | s, [], _ => rfl
  | s, p :: rest, h => by
    obtain ⟨hp, hrest⟩ := h
    rw [absorb_cons, size_absorb hrest, List.filter_cons]
    cases hv : p.value with
    | error fault =>
      rw [store_settle_of_error s hv, Prompt.accepted_of_error hv, if_neg Bool.false_ne_true]
    | ok value =>
      rw [store_settle_of_ok s hv, Prompt.accepted_of_ok hv, if_pos rfl, size_insert value hp, List.length_cons]
      omega

/-- When only the last prompt can be refused, no name is asked for twice. -/
theorem nodup_of_admits : ∀ {s : Store} {prompts : List Prompt}, s.Admits prompts →
    (∀ before p after, prompts = before ++ p :: after → p.accepted = false → after = []) →
      (prompts.map Prod.fst).Nodup
  | _, [], _, _ => List.nodup_nil
  | s, p :: rest, h, hlast => by
    have hrest : (rest.map Prod.fst).Nodup :=
      nodup_of_admits h.2 fun before q after hq => hlast (p :: before) q after (congrArg (p :: ·) hq)
    refine List.nodup_cons.2 ⟨fun hmem => ?_, hrest⟩
    obtain ⟨q, hq, hname⟩ := List.mem_map.1 hmem
    cases hp : p.accepted with
    | true =>
      have hadmits : s.Admits ([] ++ p :: rest) := h
      exact ne_of_accepted hadmits hp q hq hname
    | false =>
      rw [hlast [] p rest rfl hp] at hq
      cases hq

end Store

/-- How an evaluation that starts from a store deals with its prompts. -/
structure Evaluation.Exchange (s : Store) (e : Evaluation) : Prop where
  admits : s.Admits e.asked
  store_eq : e.store = s.absorb e.asked
  /-- A refused prompt is the last one, and the evaluation ends with what its reply is worth. -/
  refused : ∀ before p after fault, e.asked = before ++ p :: after → p.value = .error fault →
    after = [] ∧ e.outcome = .error fault

theorem Evaluation.Exchange.get?_of_not_mem {s : Store} {e : Evaluation} (h : e.Exchange s) {name : String}
    (hn : name ∉ e.prompts) : e.store.get? name = s.get? name := by
  rw [e.prompts_eq] at hn
  rw [h.store_eq]
  exact Store.get?_absorb_of_ne fun p hp heq => hn (List.mem_map.2 ⟨p, hp, heq⟩)

theorem Prompt.eq_of_singleton {p q : Prompt} {before after : List Prompt} (h : [p] = before ++ q :: after) :
    before = [] ∧ q = p ∧ after = [] := by
  cases before with
  | nil =>
    cases h
    exact ⟨rfl, rfl, rfl⟩
  | cons first before => simp at h

/-- **Every evaluation of a dialogue deals with its prompts so.** -/
theorem Dialogue.Yields.exchange {d : Dialogue} {s : Store} {e : Evaluation} (h : d.Yields s e) : e.Exchange s := by
  induction h with
  | done => exact ⟨trivial, rfl, fun before p after fault h => by cases before <;> cases h⟩
  | @stopped name unread proceed s found fault hf hv =>
    cases hf with
    | known => cases hv
    | accepted => cases hv
    | @refused reply _ hs hr =>
      cases hv
      refine ⟨⟨hs, trivial⟩, (Store.store_settle_of_error s (p := (name, reply)) hr).symm, ?_⟩
      intro before p after fault' h hp
      obtain ⟨-, rfl, rfl⟩ := Prompt.eq_of_singleton h
      rw [Prompt.value, hr] at hp
      cases hp
      exact ⟨rfl, rfl⟩
  | @continued name unread proceed s found value e hf hv he ih =>
    cases hf with
    | known hs => exact ⟨ih.admits, ih.store_eq, ih.refused⟩
    | refused => cases hv
    | @accepted reply _ hs hr =>
      cases hv
      have hstore := Store.store_settle_of_ok s (p := (name, reply)) hr
      refine ⟨⟨hs, hstore ▸ ih.admits⟩, ?_, ?_⟩
      · exact ih.store_eq.trans (congrArg (·.absorb e.asked) hstore.symm)
      · intro before p after fault h hp
        cases before with
        | nil =>
          cases h
          rw [Prompt.value, hr] at hp
          cases hp
        | cons first before => exact ih.refused before p after fault (List.cons.inj h).2 hp

theorem run_mapM_cons {σ : Type} {ask : String → StateM σ Reply} {name : String} {rest : List String} {reply : Reply}
    {replies : List Reply} {first second last : σ} (h : (ask name).run first = (reply, second))
    (hrest : (rest.mapM ask).run second = (replies, last)) :
    ((name :: rest).mapM ask).run first = (reply :: replies, last) := by
  rw [List.mapM_cons]
  simp only [StateT.run_bind, h]
  exact congrArg (fun r : List Reply × σ => (reply :: r.1, r.2)) hrest

/-- **The replies are what is said to the prompts**, one after another. -/
theorem Dialogue.run_prompts {σ : Type} (ask : String → StateM σ Reply) (d : Dialogue) (s : Store) (memory : σ) :
    (((d.run ask s).run memory).1.prompts.mapM ask).run memory =
      (((d.run ask s).run memory).1.asked.map Prod.snd, ((d.run ask s).run memory).2) := by
  induction d generalizing s memory with
  | done outcome unread => rfl
  | lookup name unread proceed ih =>
    cases hs : s.get? name with
    | some value =>
      rw [run_of_ok (Store.run_resolve_known ask memory hs) rfl]
      exact ih value s memory
    | none =>
      have hrun := Store.run_resolve_asked ask memory hs
      rcases hask : (ask name).run memory with ⟨reply, memory'⟩
      rw [hask] at hrun
      cases hr : Reply.value name reply with
      | error fault =>
        rw [Store.settle_of_error s hr] at hrun
        rw [run_of_error hrun rfl]
        exact run_mapM_cons hask rfl
      | ok value =>
        rw [Store.settle_of_ok s hr] at hrun
        rw [run_of_ok hrun rfl]
        exact run_mapM_cons hask (ih value (s.insert name value) memory')

end Calculator
