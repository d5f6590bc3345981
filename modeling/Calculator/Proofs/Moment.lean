import Mathlib.Logic.Relation
import Calculator.Evaluation
import Calculator.Proofs.Rule
import Calculator.Proofs.Yields
/-!
# Proofs.Moment — an evaluation, moment by moment

A moment of an evaluation is where the reading stands, with the bindings, the lookups so far and what the one who
replies remembers.  One moment goes to the next (`Moment.Goes`) until the last one ends the evaluation
(`Moment.Ends`), and an evaluation is what the chain of moments from its start ends with (`Moment.finish_eq_iff`).  To
compare two evaluations is then to carry the moments of the one over to moments of the other, step by step.
-/
namespace Calculator
namespace Machine

open Relation (ReflTransGen)

structure Moment (σ : Type) where
  config : Config
  store : Store
  /-- The uses of variables so far, in order. -/
  lookups : List Lookup
  /-- What the one who replies remembers. -/
  memory : σ

namespace Moment

variable {σ : Type}

def start (source : String) (s : Store) (memory : σ) : Moment σ := ⟨.start source.toList, s, [], memory⟩

/-- From one moment to the next. -/
inductive Goes (ask : String → StateM σ Reply) (limit : Nat) : Moment σ → Moment σ → Prop where
  | moved {c next : Config} {s : Store} {lookups : List Lookup} {memory : σ} (h : step limit c = .move next) :
    Goes ask limit ⟨c, s, lookups, memory⟩ ⟨next, s, lookups, memory⟩
  | resumed {c : Config} {s : Store} {lookups : List Lookup} {memory memory' : σ} {name : String}
    {outer : List Pending} {here : Pending} {unread : List Char} {found : Resolution} {value product : Float}
    (h : step limit c = .lookup name outer here unread) (hf : (s.resolve ask name).run memory = (found, memory'))
    (hv : found.value = .ok value) (hm : here.multiply value = .ok product) :
    Goes ask limit ⟨c, s, lookups, memory⟩
      ⟨.operator outer here.sum product unread, found.store, lookups ++ [found.lookup], memory'⟩

/-- How the last moment ends the evaluation. -/
inductive Ends (ask : String → StateM σ Reply) (limit : Nat) : Moment σ → Evaluation × σ → Prop where
  | stopped {c : Config} {s : Store} {lookups : List Lookup} {memory : σ} {outcome : Except Fault Float}
    {unread : List Char} (h : step limit c = .stop outcome unread) :
    Ends ask limit ⟨c, s, lookups, memory⟩ (⟨outcome, s, lookups, unread⟩, memory)
  | refused {c : Config} {s : Store} {lookups : List Lookup} {memory memory' : σ} {name : String}
    {outer : List Pending} {here : Pending} {unread : List Char} {found : Resolution} {fault : Fault}
    (h : step limit c = .lookup name outer here unread) (hf : (s.resolve ask name).run memory = (found, memory'))
    (hv : found.value = .error fault) :
    Ends ask limit ⟨c, s, lookups, memory⟩
      (⟨.error fault, found.store, lookups ++ [found.lookup], unread⟩, memory')
  | divided {c : Config} {s : Store} {lookups : List Lookup} {memory memory' : σ} {name : String}
    {outer : List Pending} {here : Pending} {unread : List Char} {found : Resolution} {value : Float} {fault : Fault}
    (h : step limit c = .lookup name outer here unread) (hf : (s.resolve ask name).run memory = (found, memory'))
    (hv : found.value = .ok value) (hm : here.multiply value = .error fault) :
    Ends ask limit ⟨c, s, lookups, memory⟩
      (⟨.error fault, found.store, lookups ++ [found.lookup], unread⟩, memory')

/-- The evaluation as it goes on from a moment to its end. -/
def finish (ask : String → StateM σ Reply) (limit : Nat) (a : Moment σ) : Evaluation × σ :=
  let (e, memory) := ((dialogue limit a.config).run ask a.store).run a.memory
  ({ e with lookups := a.lookups ++ e.lookups }, memory)

section

variable {ask : String → StateM σ Reply} {limit : Nat} {a b : Moment σ} {r : Evaluation × σ}

theorem Goes.finish_eq (h : Goes ask limit a b) : a.finish ask limit = b.finish ask limit := by
  cases h with
  | moved h =>
    unfold finish
    rw [dialogue_of_move h]
  | resumed h hf hv hm =>
    unfold finish
    simp only [dialogue_of_lookup h, Dialogue.run_of_ok hf hv, resume, hm, List.append_assoc, List.singleton_append]
    rfl

theorem Ends.finish_eq (h : Ends ask limit a r) : a.finish ask limit = r := by
  cases h with
  | @stopped c s lookups memory outcome unread h =>
    unfold finish
    rw [dialogue_of_stop h]
    change ((⟨outcome, s, lookups ++ [], unread⟩ : Evaluation), memory) = _
    rw [List.append_nil]
  | refused h hf hv =>
    unfold finish
    simp only [dialogue_of_lookup h, Dialogue.run_of_error hf hv]
  | divided h hf hv hm =>
    unfold finish
    simp only [dialogue_of_lookup h, Dialogue.run_of_ok hf hv, resume, hm]
    rfl

theorem goes_or_ends (ask : String → StateM σ Reply) (limit : Nat) (a : Moment σ) :
    (∃ b, Goes ask limit a b ∧ b.config.unread.length < a.config.unread.length) ∨ ∃ r, Ends ask limit a r := by
  obtain ⟨c, s, lookups, memory⟩ := a
  cases h : step limit c with
  | stop outcome unread => exact .inr ⟨_, .stopped h⟩
  | move next => exact .inl ⟨_, .moved h, length_lt_of_step_move h⟩
  | lookup name outer here unread =>
    rcases hf : (s.resolve ask name).run memory with ⟨found, memory'⟩
    cases hv : found.value with
    | error fault => exact .inr ⟨_, .refused h hf hv⟩
    | ok value =>
      cases hm : here.multiply value with
      | error fault => exact .inr ⟨_, .divided h hf hv hm⟩
      | ok product => exact .inl ⟨_, .resumed h hf hv hm, length_lt_of_step_lookup h⟩

/-- What every step keeps holds at each moment that is reached. -/
theorem kept_of_reaches {P : Moment σ → Prop} (hP : ∀ {a b}, Goes ask limit a b → P a → P b)
    (h : ReflTransGen (Goes ask limit) a b) (ha : P a) : P b := by
  induction h with
  | refl => exact ha
  | tail _ h ih => exact hP h ih

theorem finish_eq_of_reaches (h : ReflTransGen (Goes ask limit) a b) : a.finish ask limit = b.finish ask limit :=
  kept_of_reaches (P := fun b => a.finish ask limit = b.finish ask limit) (fun h ha => ha.trans h.finish_eq) h rfl

theorem exists_ends (ask : String → StateM σ Reply) (limit : Nat) (a : Moment σ) :
    ∃ b r, ReflTransGen (Goes ask limit) a b ∧ Ends ask limit b r := by
  rcases goes_or_ends ask limit a with ⟨b, hab, hlt⟩ | ⟨r, hr⟩
  · obtain ⟨last, r, hb, hr⟩ := exists_ends ask limit b
    exact ⟨last, r, .head hab hb, hr⟩
  · exact ⟨a, r, .refl, hr⟩
termination_by a.config.unread.length

/-- **An evaluation is what its moments end with.** -/
theorem finish_eq_iff : a.finish ask limit = r ↔ ∃ b, ReflTransGen (Goes ask limit) a b ∧ Ends ask limit b r := by
  constructor
  · rintro rfl
    obtain ⟨b, r, hb, hr⟩ := exists_ends ask limit a
    rw [finish_eq_of_reaches hb, hr.finish_eq]
    exact ⟨b, hb, hr⟩
  · rintro ⟨b, hb, hr⟩
    rw [finish_eq_of_reaches hb, hr.finish_eq]

/-! ## What is left of the text -/

theorem Goes.unread_eq (h : Goes ask limit a b) : b.config.unread = (step limit a.config).unread := by
  cases h with
  | moved h | resumed h => rw [h]; rfl

theorem Ends.unread_eq (h : Ends ask limit a r) : r.1.unread = (step limit a.config).unread := by
  cases h with
  | stopped h | refused h | divided h => rw [h]; rfl

theorem Goes.unread_suffix (h : Goes ask limit a b) : b.config.unread <:+ a.config.unread := by
  rw [h.unread_eq]
  exact (rule_step limit a.config).unread_suffix

/-- What a step reads stays read. -/
theorem finish_unread_suffix (ask : String → StateM σ Reply) (limit : Nat) (a : Moment σ) :
    (a.finish ask limit).1.unread <:+ (step limit a.config).unread := by
  obtain ⟨b, hab, hb⟩ := finish_eq_iff.1 (rfl : a.finish ask limit = _)
  rw [hb.unread_eq]
  rcases hab.cases_head with rfl | ⟨c, hac, hcb⟩
  · exact List.suffix_rfl
  · rw [← hac.unread_eq]
    have hb : b.config.unread <:+ c.config.unread :=
      kept_of_reaches (P := fun b => b.config.unread <:+ c.config.unread) (fun h hc => h.unread_suffix.trans hc) hcb
        List.suffix_rfl
    exact (rule_step limit b.config).unread_suffix.trans hb

end

/-- **Moments of one evaluation as moments of another.**  What a step needs to be carried over holds before it if it
holds after it, so it is only to be shown of the last moment. -/
theorem reaches_map {τ : Type} {r : Moment σ → Moment σ → Prop} {r' : Moment τ → Moment τ → Prop}
    {f : Moment σ → Moment τ} {P : Moment σ → Prop} (h : ∀ {a b}, r a b → P b → P a ∧ r' (f a) (f b)) {a b : Moment σ}
    (hab : ReflTransGen r a b) (hb : P b) : P a ∧ ReflTransGen r' (f a) (f b) := by
  induction hab using ReflTransGen.head_induction_on with
  | refl => exact ⟨hb, .refl⟩
  | head hac _ ih =>
    obtain ⟨hc, hcb⟩ := ih
    obtain ⟨ha, hstep⟩ := h hac hc
    exact ⟨ha, .head hstep hcb⟩

end Moment
end Machine

open Machine (Moment)

theorem run_evaluateSource {σ : Type} (ask : String → StateM σ Reply) (limit : Nat) (s : Store) (source : String)
    (memory : σ) :
    (evaluateSource ask limit s source).run memory = (Moment.start source s memory).finish ask limit := rfl

end Calculator
