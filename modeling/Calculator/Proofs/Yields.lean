import Calculator.Dialogue
import Calculator.Proofs.Resolution
/-!
# Proofs.Yields — the evaluations that a dialogue can come to

`Dialogue.run` asks someone, who may remember what was asked before.  `Dialogue.Yields` has the same evaluations and
nobody to ask: each lookup ends in one of the ways in which a lookup can end.  Whatever holds of all that a dialogue
yields holds of every run (`yields_run`), so the statements that are about one run speak of this relation.
-/
namespace Calculator
namespace Dialogue

/-- The evaluations of a dialogue on a store: a lookup without a value ends it, any other one goes on. -/
inductive Yields : Dialogue → Store → Evaluation → Prop where
  | done {outcome : Except Fault Float} {unread : List Char} {s : Store} :
    Yields (.done outcome unread) s ⟨outcome, s, [], unread⟩
  | stopped {name : String} {unread : List Char} {proceed : Float → Dialogue} {s : Store} {found : Resolution}
    {fault : Fault} (h : s.Resolves name found) (hv : found.value = .error fault) :
    Yields (.lookup name unread proceed) s ⟨.error fault, found.store, [found.lookup], unread⟩
  | continued {name : String} {unread : List Char} {proceed : Float → Dialogue} {s : Store} {found : Resolution}
    {value : Float} {e : Evaluation} (h : s.Resolves name found) (hv : found.value = .ok value)
    (he : Yields (proceed value) found.store e) :
    Yields (.lookup name unread proceed) s { e with lookups := found.lookup :: e.lookups }

section

variable {σ : Type} {ask : String → StateM σ Reply} {s : Store} {name : String} {unread : List Char}
  {proceed : Float → Dialogue} {memory memory' : σ} {found : Resolution}

theorem run_of_error {fault : Fault} (h : (s.resolve ask name).run memory = (found, memory'))
    (hv : found.value = .error fault) :
    ((lookup name unread proceed).run ask s).run memory =
      (⟨.error fault, found.store, [found.lookup], unread⟩, memory') := by
  obtain ⟨value, store, lookup⟩ := found
  cases hv
  simp only [run, StateT.run_bind, h]
  rfl

theorem run_of_ok {value : Float} (h : (s.resolve ask name).run memory = (found, memory'))
    (hv : found.value = .ok value) :
    ((lookup name unread proceed).run ask s).run memory =
      let (e, last) := ((proceed value).run ask found.store).run memory'
      ({ e with lookups := found.lookup :: e.lookups }, last) := by
  obtain ⟨value, store, lookup⟩ := found
  cases hv
  simp only [run, StateT.run_bind, h]
  rfl

end

/-- **Every run is among what the dialogue yields.** -/
theorem yields_run {σ : Type} (ask : String → StateM σ Reply) (d : Dialogue) (s : Store) (memory : σ) :
    d.Yields s ((d.run ask s).run memory).1 := by
  induction d generalizing s memory with
  | done outcome unread => exact .done
  | lookup name unread proceed ih =>
    have h := s.resolves_resolve ask name memory
    rcases hf : (s.resolve ask name).run memory with ⟨found, memory'⟩
    rw [hf] at h
    cases hv : found.value with
    | error fault =>
      rw [run_of_error hf hv]
      exact .stopped h hv
    | ok value =>
      rw [run_of_ok hf hv]
      exact .continued h hv (ih value found.store memory')

theorem Yields.le {d : Dialogue} {s : Store} {e : Evaluation} (h : d.Yields s e) : s ≤ e.store := by
  induction h with
  | done => exact Store.le_refl _
  | stopped h hv => exact h.le
  | continued h hv he ih => exact Store.le_trans h.le ih

end Dialogue
end Calculator
