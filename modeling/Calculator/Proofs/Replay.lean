import Calculator.Proofs.Moment
import Calculator.Proofs.Prompts
/-!
# Proofs.Replay — an evaluation again, with all its names bound

Evaluated once more on a store that has kept all bindings, an expression goes through the same moments, and finds each
name in the store where it was asked for before (`Machine.Moment.Goes.recalled`).  So the outcome is the same, nobody
is asked, and the store stays as it is (`evaluate_replay`), provided that no reply had been refused.
-/
namespace Calculator

open Relation (ReflTransGen)

def Lookup.recalled (l : Lookup) : Lookup := .known l.name

/-- The evaluation with all its names found in the store. -/
def Evaluation.recalled (t : Store) (e : Evaluation) : Evaluation :=
  { e with store := t, lookups := e.lookups.map Lookup.recalled }

theorem Lookup.asked_recalled (lookups : List Lookup) : (lookups.map recalled).filterMap asked? = [] := by
  refine List.filterMap_eq_nil_iff.2 fun l hl => ?_
  obtain ⟨l, -, rfl⟩ := List.mem_map.1 hl
  rfl

theorem Evaluation.prompts_recalled (t : Store) (e : Evaluation) : (e.recalled t).prompts = [] := by
  rw [prompts_eq, asked, recalled, Lookup.asked_recalled, List.map_nil]

namespace Machine
namespace Moment

variable {σ τ : Type} {ask : String → StateM σ Reply} {ask' : String → StateM τ Reply} {limit : Nat} {t : Store}
  {memory : τ} {a b : Moment σ} {r : Evaluation × σ}

/-- The same moment where all names have been bound before. -/
def recalled (t : Store) (memory : τ) (a : Moment σ) : Moment τ :=
  ⟨a.config, t, a.lookups.map Lookup.recalled, memory⟩

theorem Goes.le (h : Goes ask limit a b) : a.store ≤ b.store := by
  cases h with
  | moved => exact Store.le_refl _
  | resumed h hf hv hm => exact (Store.resolves_of_run hf).le

/-- A name that has got its value is found in every store above. -/
theorem resolve_recalled {s : Store} {name : String} {found : Resolution} {value : Float} {before after : σ}
    (hf : (s.resolve ask name).run before = (found, after)) (hv : found.value = .ok value) (ht : found.store ≤ t)
    (ask' : String → StateM τ Reply) (memory : τ) :
    (t.resolve ask' name).run memory = (⟨.ok value, t, found.lookup.recalled⟩, memory) := by
  have hr := Store.resolves_of_run hf
  have hname : found.lookup.recalled = .known name := congrArg Lookup.known hr.name_lookup
  rw [hname]
  exact Store.run_resolve_known ask' memory (ht name value (hr.get?_of_ok hv))

/-- **A step is taken again** on every store that has its bindings. -/
theorem Goes.recalled (h : Goes ask limit a b) (hb : b.store ≤ t) :
    a.store ≤ t ∧ Goes ask' limit (a.recalled t memory) (b.recalled t memory) := by
  refine ⟨Store.le_trans h.le hb, ?_⟩
  cases h with
  | moved h => exact .moved h
  | @resumed c s lookups _ _ name outer here unread found value product h hf hv hm =>
    rw [Moment.recalled, Moment.recalled, List.map_append]
    exact .resumed h (resolve_recalled hf hv hb ask' memory) rfl hm

theorem Ends.recalled (h : Ends ask limit a r) (hr : r.1.store ≤ t)
    (hasked : ∀ fault, r.1.outcome = .error fault → ∀ p ∈ r.1.asked, p.accepted = true) :
    a.store ≤ t ∧ Ends ask' limit (a.recalled t memory) (r.1.recalled t, memory) := by
  cases h with
  | stopped h => exact ⟨hr, .stopped h⟩
  | @refused c s lookups _ _ name outer here unread found fault h hf hv =>
    -- excluded: a reply that ends the evaluation is not accepted
    obtain ⟨reply, -, hreply, rfl⟩ := (Store.resolves_of_run hf).of_error hv
    have hreply : Prompt.value (name, reply) = .error fault := hreply
    have hp : (name, reply) ∈ Evaluation.asked ⟨.error fault, s, lookups ++ [.asked name reply], unread⟩ :=
      List.mem_filterMap.2 ⟨.asked name reply, List.mem_append_right _ List.mem_cons_self, rfl⟩
    have haccepted := hasked fault rfl _ hp
    rw [Prompt.accepted_of_error hreply] at haccepted
    cases haccepted
  | @divided c s lookups _ _ name outer here unread found value fault h hf hv hm =>
    refine ⟨Store.le_trans (Store.resolves_of_run hf).le hr, ?_⟩
    rw [Moment.recalled, Evaluation.recalled, List.map_append]
    exact .divided h (resolve_recalled hf hv hr ask' memory) rfl hm

/-- **What has led to a moment leads there again** on every store that has its bindings, and nobody is asked. -/
theorem reaches_recalled (h : ReflTransGen (Goes ask limit) a b) (hb : b.store ≤ t) :
    ReflTransGen (Goes ask' limit) (a.recalled t memory) (b.recalled t memory) :=
  (reaches_map (f := Moment.recalled t memory) (P := fun a => a.store ≤ t) Goes.recalled h hb).2

end Moment
end Machine

open Machine (Moment)

section

variable {σ τ : Type} {ask : String → StateM σ Reply} {limit : Nat} {s : Store}

theorem evaluateSource_recalled {source : String} {memory : σ} {e : Evaluation}
    (he : ((evaluateSource ask limit s source).run memory).1 = e)
    (hasked : ∀ fault, e.outcome = .error fault → ∀ p ∈ e.asked, p.accepted = true) {t : Store} (ht : e.store ≤ t)
    (ask' : String → StateM τ Reply) (memory' : τ) :
    (evaluateSource ask' limit t source).run memory' = (e.recalled t, memory') := by
  subst he
  obtain ⟨b, hreaches, hends⟩ := Moment.finish_eq_iff.1 (run_evaluateSource ask limit s source memory).symm
  obtain ⟨hb, hends⟩ := hends.recalled ht hasked
  exact Moment.finish_eq_iff.2 ⟨_, Moment.reaches_recalled hreaches hb, hends⟩

/-- **An evaluation can be replayed.**  Unless it ended because a reply was refused, its expression has the same outcome
on every store that has all its bindings, whoever could be asked; nobody is, and the store stays as it is. -/
theorem evaluate_replay {expression : String} {memory : σ} {e : Evaluation}
    (he : ((evaluate ask limit s expression).run memory).1 = e)
    (hasked : ∀ fault, e.outcome = .error fault → ∀ p ∈ e.asked, p.accepted = true) {t : Store} (ht : e.store ≤ t)
    (ask' : String → StateM τ Reply) (memory' : τ) :
    ∃ again, (evaluate ask' limit t expression).run memory' = (again, memory') ∧ again.outcome = e.outcome ∧
      again.prompts = [] ∧ again.store = t ∧ again.unread = e.unread ∧
      again.lookups.map Lookup.name = e.lookups.map Lookup.name := by
  refine ⟨e.recalled t, evaluateSource_recalled he hasked ht ask' memory', rfl, e.prompts_recalled t, rfl, rfl, ?_⟩
  exact (List.map_map).trans (List.map_congr_left fun l _ => rfl)

/-- A division by zero after two prompts is found again, on the store that a later expression has added to. -/
theorem evaluate_replay_division :
    let ask : String → StateM Nat Reply := fun _ => modifyGet fun asked => (.ok "2", asked + 1)
    let other : String → StateM Nat Reply := fun _ => modifyGet fun asked => (.ok "7", asked + 1)
    let first := ((evaluate ask 1 .empty "x / (y - 2)").run 0).1
    let later := ((evaluate ask 1 first.store "z * x").run 2).1
    (first.outcome = .error .divisionByZero ∧ first.prompts = ["x", "y"] ∧ later.prompts = ["z"]) ∧
    (∀ fault, first.outcome = .error fault → ∀ p ∈ first.asked, p.accepted = true) ∧ first.store ≤ later.store ∧
    ∃ again, (evaluate other 1 later.store "x / (y - 2)").run 0 = (again, 0) ∧
      again.outcome = .error .divisionByZero ∧ again.prompts = [] ∧ again.store = later.store ∧
      again.unread = first.unread ∧ again.lookups.map Lookup.name = first.lookups.map Lookup.name := by
  intro ask other first later
  have hoffered : ∀ p ∈ first.asked, p.accepted = true := by decide +kernel
  have hfirst : first.outcome = .error .divisionByZero := by decide +kernel
  have hle : first.store ≤ later.store := (Dialogue.yields_run ask _ first.store 2).le
  have hagain := evaluate_replay (e := first) rfl (fun _ _ => hoffered) hle other 0
  rw [hfirst] at hagain
  exact ⟨⟨hfirst, by decide +kernel, by decide +kernel⟩, fun _ _ => hoffered, hle, hagain⟩

end

end Calculator
