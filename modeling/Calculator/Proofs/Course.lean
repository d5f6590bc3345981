import Calculator.Evaluation
import Calculator.Proofs.Rule
import Calculator.Proofs.Yields
/-!
# Proofs.Course — an evaluation, step by step

`Machine.Course` relates a configuration and a store to the evaluations that can follow: there is a last step
(`Machine.Last`), and before it any number of steps that go on.  Every evaluation of a source is such a course
(`course_evaluateSource`), and what each step keeps still holds when the last one begins (`Course.exists_last`).
-/
namespace Calculator
namespace Machine

/-- How the last step of an evaluation ends it. -/
inductive Last (limit : Nat) (c : Config) (s : Store) : Evaluation → Prop where
  | stopped {outcome : Except Fault Float} {unread : List Char} (h : step limit c = .stop outcome unread) :
    Last limit c s ⟨outcome, s, [], unread⟩
  | refused {name : String} {outer : List Pending} {here : Pending} {unread : List Char} {found : Resolution}
    {fault : Fault} (h : step limit c = .lookup name outer here unread) (hf : s.Resolves name found)
    (hv : found.value = .error fault) : Last limit c s ⟨.error fault, found.store, [found.lookup], unread⟩
  | divided {name : String} {outer : List Pending} {here : Pending} {unread : List Char} {found : Resolution}
    {value : Float} {fault : Fault} (h : step limit c = .lookup name outer here unread) (hf : s.Resolves name found)
    (hv : found.value = .ok value) (hm : here.multiply value = .error fault) :
    Last limit c s ⟨.error fault, found.store, [found.lookup], unread⟩

/-- What can follow from a configuration and a store, with at most `limit` parentheses open. -/
inductive Course (limit : Nat) : Config → Store → Evaluation → Prop where
  | last {c : Config} {s : Store} {e : Evaluation} (h : Last limit c s e) : Course limit c s e
  | moved {c next : Config} {s : Store} {e : Evaluation} (h : step limit c = .move next)
    (he : Course limit next s e) : Course limit c s e
  | resumed {c : Config} {s : Store} {name : String} {outer : List Pending} {here : Pending} {unread : List Char}
    {found : Resolution} {value product : Float} {e : Evaluation} (h : step limit c = .lookup name outer here unread)
    (hf : s.Resolves name found) (hv : found.value = .ok value) (hm : here.multiply value = .ok product)
    (he : Course limit (.operator outer here.sum product unread) found.store e) :
    Course limit c s { e with lookups := found.lookup :: e.lookups }

theorem course_of_yields {limit : Nat} (c : Config) {s : Store} {e : Evaluation}
    (h : (dialogue limit c).Yields s e) : Course limit c s e := by
  cases hs : step limit c with
  | stop outcome unread =>
    rw [dialogue_of_stop hs] at h
    cases h
    exact .last (.stopped hs)
  | move next =>
    rw [dialogue_of_move hs] at h
    exact .moved hs (course_of_yields next h)
  | lookup name outer here unread =>
    rw [dialogue_of_lookup hs] at h
    cases h with
    | stopped hf hv => exact .last (.refused hs hf hv)
    | @continued _ _ _ _ found value e hf hv he =>
      unfold resume at he
      cases hm : here.multiply value with
      | error fault =>
        simp only [hm] at he
        cases he
        exact .last (.divided hs hf hv hm)
      | ok product =>
        simp only [hm] at he
        exact .resumed hs hf hv hm (course_of_yields (.operator outer here.sum product unread) he)
termination_by c.unread.length
decreasing_by
  · exact length_lt_of_step_move hs
  · exact length_lt_of_step_lookup hs

/-- What each step of a course keeps. -/
structure Kept (limit : Nat) (I : Config → Store → Prop) : Prop where
  move : ∀ {c next s}, I c s → step limit c = .move next → I next s
  resume : ∀ {c s name outer here unread found value product}, I c s → step limit c = .lookup name outer here unread →
    s.Resolves name found → found.value = .ok value → here.multiply value = .ok product →
      I (.operator outer here.sum product unread) found.store

/-- **What each step keeps holds when the last one begins.**  The evaluation differs from what the last step alone
comes to by the lookups made before. -/
theorem Course.exists_last {limit : Nat} {I : Config → Store → Prop} (hI : Kept limit I) {c : Config} {s : Store}
    {e : Evaluation} (h : Course limit c s e) (hc : I c s) :
    ∃ c' s' e' before, I c' s' ∧ Last limit c' s' e' ∧ e = { e' with lookups := before ++ e'.lookups } := by
  induction h with
  | last h => exact ⟨_, _, _, [], hc, h, rfl⟩
  | moved h he ih => exact ih (hI.move hc h)
  | resumed h hf hv hm he ih =>
    obtain ⟨c', s', e', before, hc', hlast, rfl⟩ := ih (hI.resume hc h hf hv hm)
    exact ⟨c', s', e', _ :: before, hc', hlast, rfl⟩

theorem covers_of_resolves {limit : Nat} {c : Config} {s : Store} {name : String} {outer : List Pending}
    {here : Pending} {unread : List Char} {found : Resolution} (h : step limit c = .lookup name outer here unread)
    (hf : s.Resolves name found) : Lexeme.name.covers found.lookup.name.toList = true := by
  obtain ⟨span, -, rfl, hs, -⟩ := of_step_lookup h
  rw [hf.name_lookup, String.toList_ofList]
  exact hs

/-- Only names are looked up. -/
theorem Course.covers_name {limit : Nat} {c : Config} {s : Store} {e : Evaluation} (h : Course limit c s e) :
    ∀ l ∈ e.lookups, Lexeme.name.covers l.name.toList = true := by
  induction h with
  | last h =>
    intro l hl
    cases h with
    | stopped => cases hl
    | refused h hf | divided h hf =>
      rw [List.mem_singleton.1 hl]
      exact covers_of_resolves h hf
  | moved h he ih => exact ih
  | resumed h hf hv hm he ih =>
    intro l hl
    rcases List.mem_cons.1 hl with rfl | hl
    · exact covers_of_resolves h hf
    · exact ih l hl

end Machine

/-- **Every evaluation of a source is a course** from its start. -/
theorem course_evaluateSource {σ : Type} (ask : String → StateM σ Reply) (limit : Nat) (store : Store) (source : String)
    (memory : σ) :
    Machine.Course limit (.start source.toList) store ((evaluateSource ask limit store source).run memory).1 :=
  Machine.course_of_yields _ (Dialogue.yields_run ask (dialogueOf limit source) store memory)

end Calculator
