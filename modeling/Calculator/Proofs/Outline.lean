import Calculator.Proofs.FaultPlace
import Calculator.Proofs.NamesRead
import Calculator.Proofs.Retry
/-!
# Proofs.Outline — no number decides what is read next

The outline of a configuration is what is left of it without its numbers.  It determines what a step reads, which name
it looks up and which outline comes next, except that a division by zero ends everything (`Machine.step_alike`).  So two
evaluations of one expression, whatever their stores and whoever replies, go side by side until one of them ends with
such a division or with a refused reply (`evaluate_alike`).
-/
namespace Calculator

open Relation (ReflTransGen)

namespace Machine

/-- The operations that wait, without their left operands. -/
def Pending.operators (p : Pending) : Option SumOperator × Option ProductOperator :=
  (p.sum.map Prod.snd, p.product.map Prod.snd)

/-- A configuration without its numbers. -/
inductive Outline where
  | operand (outer : List (Option SumOperator × Option ProductOperator))
    (here : Option SumOperator × Option ProductOperator) (unread : List Char)
  | operator (outer : List (Option SumOperator × Option ProductOperator)) (sum : Option SumOperator)
    (unread : List Char)
  deriving DecidableEq, Repr

def Config.outline : Config → Outline
  | operand outer here unread => .operand (outer.map Pending.operators) here.operators unread
  | operator outer sum _ unread => .operator (outer.map Pending.operators) (sum.map Prod.snd) unread

/-- Steps that differ in their numbers, and by a division by zero at most. -/
inductive Step.Alike : Step → Step → Prop where
  | failed {fault : Fault} {unread : List Char} :
    Alike (.stop (.error fault) unread) (.stop (.error fault) unread)
  | succeeded {left right : Float} {unread : List Char} :
    Alike (.stop (.ok left) unread) (.stop (.ok right) unread)
  | moved {left right : Config} (h : left.outline = right.outline) : Alike (.move left) (.move right)
  | lookup {name : String} {outer outer' : List Pending} {here here' : Pending} {unread : List Char}
    (ho : outer.map Pending.operators = outer'.map Pending.operators) (hh : here.operators = here'.operators) :
    Alike (.lookup name outer here unread) (.lookup name outer' here' unread)
  | leftDivided {unread : List Char} {right : Config} (h : right.unread = unread) :
    Alike (.stop (.error .divisionByZero) unread) (.move right)
  | rightDivided {unread : List Char} {left : Config} (h : left.unread = unread) :
    Alike (.move left) (.stop (.error .divisionByZero) unread)

theorem Pending.multiply_eq_error {p : Pending} {value : Float} {fault : Fault} (h : p.multiply value = .error fault) :
    fault = .divisionByZero := by
  cases hp : p.product with
  | none =>
    rw [p.multiply_of_none value hp] at h
    cases h
  | some waiting =>
    rw [p.multiply_of_some value hp] at h
    exact (ProductOperator.apply_eq_error h).1

/-- Using a value goes alike, unless it is a zero to divide by. -/
theorem supply_alike {outer outer' : List Pending} {here here' : Pending} (value value' : Float) (unread : List Char)
    (ho : outer.map Pending.operators = outer'.map Pending.operators) (hh : here.operators = here'.operators) :
    (supply outer here value unread).Alike (supply outer' here' value' unread) := by
  have hsum : here.sum.map Prod.snd = here'.sum.map Prod.snd := congrArg Prod.fst hh
  cases hm : here.multiply value with
  | error fault =>
    obtain rfl := Pending.multiply_eq_error hm
    rw [supply_of_error outer unread hm]
    cases hm' : here'.multiply value' with
    | error fault =>
      obtain rfl := Pending.multiply_eq_error hm'
      rw [supply_of_error outer' unread hm']
      exact .failed
    | ok product =>
      rw [supply_of_ok outer' unread hm']
      exact .leftDivided rfl
  | ok product =>
    rw [supply_of_ok outer unread hm]
    cases hm' : here'.multiply value' with
    | error fault =>
      obtain rfl := Pending.multiply_eq_error hm'
      rw [supply_of_error outer' unread hm']
      exact .rightDivided rfl
    | ok product' =>
      rw [supply_of_ok outer' unread hm']
      exact .moved (by rw [Config.outline, Config.outline, ho, hsum])

theorem operandStep_alike (limit : Nat) {outer outer' : List Pending} {here here' : Pending}
    (ho : outer.map Pending.operators = outer'.map Pending.operators) (hh : here.operators = here'.operators) :
    ∀ text : List Char, (operandStep limit outer here text).Alike (operandStep limit outer' here' text)
  | [] => .failed
  | c :: rest => by
    have hlength : outer.length = outer'.length := by simpa using congrArg List.length ho
    simp only [operandStep]
    cases Lexeme.ofChar? c with
    | none =>
      simp only [hlength]
      split
      · split
        · exact .failed
        · exact .moved (by simp only [Config.outline, List.map_cons, ho, hh])
      · exact .failed
    | some kind =>
      cases kind with
      | name => exact .lookup ho hh
      | number =>
        simp only
        split
        · exact .failed
        · exact supply_alike _ _ _ ho hh

theorem operatorStep_alike {outer outer' : List Pending} {sum sum' : Option (Float × SumOperator)}
    (product product' : Float) (ho : outer.map Pending.operators = outer'.map Pending.operators)
    (hs : sum.map Prod.snd = sum'.map Prod.snd) :
    ∀ text : List Char, (operatorStep outer sum product text).Alike (operatorStep outer' sum' product' text)
  | [] => by
    cases outer with
    | nil =>
      obtain rfl := List.map_eq_nil_iff.1 ho.symm
      exact .succeeded
    | cons here outer =>
      obtain ⟨here', outer', rfl, -, -⟩ := List.map_eq_cons_iff.1 ho.symm
      exact .failed
  | c :: rest => by
    simp only [operatorStep]
    cases ProductOperator.ofSymbol? c with
    | some op => exact .moved (by simp only [Config.outline, Pending.operators, ho, hs, Option.map_some])
    | none =>
      cases SumOperator.ofSymbol? c with
      | some op => exact .moved (by simp only [Config.outline, Pending.operators, ho, Option.map_some])
      | none =>
        cases outer with
        | nil =>
          obtain rfl := List.map_eq_nil_iff.1 ho.symm
          exact .failed
        | cons here outer =>
          obtain ⟨here', outer', rfl, hh, ho⟩ := List.map_eq_cons_iff.1 ho.symm
          simp only
          split
          · exact supply_alike _ _ _ ho.symm hh.symm
          · exact .failed

/-- **Alike configurations make alike steps.** -/
theorem step_alike (limit : Nat) : ∀ {c c' : Config}, c.outline = c'.outline → (step limit c).Alike (step limit c')
  | .operand outer here unread, .operand outer' here' unread', h => by
    obtain ⟨ho, hh, rfl⟩ := Outline.operand.inj h
    exact operandStep_alike limit ho hh unread
  | .operator outer sum product unread, .operator outer' sum' product' unread', h => by
    obtain ⟨ho, hs, rfl⟩ := Outline.operator.inj h
    exact operatorStep_alike product product' ho hs unread
  | .operand .., .operator .., h => nomatch h
  | .operator .., .operand .., h => nomatch h

end Machine

/-- Whether values end an evaluation: a right operand that is zero, or a reply that writes no number. -/
def Evaluation.Breaks (e : Evaluation) : Prop :=
  e.outcome = .error .divisionByZero ∨ ∃ p ∈ e.asked, p.accepted = false

/-- Whether two evaluations came to the same, their numbers apart: the same fault or none, after the same lookups and at
the same place. -/
structure Evaluation.Alike (left right : Evaluation) : Prop where
  outcome : (∃ value value', left.outcome = .ok value ∧ right.outcome = .ok value') ∨
    ∃ fault, left.outcome = .error fault ∧ right.outcome = .error fault
  names : left.lookups.map Lookup.name = right.lookups.map Lookup.name
  unread : left.unread = right.unread

namespace Machine
namespace Moment

section

variable {σ : Type} {ask : String → StateM σ Reply} {limit : Nat} {a b : Moment σ} {r : Evaluation × σ}

def names (a : Moment σ) : List String := a.lookups.map Lookup.name

/-- Whether an evaluation that goes on from a moment comes to a place of the text, having looked up these names: it is
there for a moment, or ends there. -/
inductive Passes (ask : String → StateM σ Reply) (limit : Nat) (a : Moment σ) (unread : List Char)
    (names : List String) : Prop where
  | through {b : Moment σ} (h : ReflTransGen (Goes ask limit) a b) (hu : b.config.unread = unread)
    (hn : b.names = names)
  | upTo {r : Evaluation × σ} (h : a.finish ask limit = r) (hu : r.1.unread = unread)
    (hn : r.1.lookups.map Lookup.name = names)

theorem Goes.names_eq (h : Goes ask limit a b) : b.names = a.names ++ (step limit a.config).names := by
  cases h with
  | moved h =>
    rw [h]
    exact (List.append_nil _).symm
  | resumed h hf hv hm =>
    rw [h]
    exact map_name_concat hf _

theorem Ends.names_eq (h : Ends ask limit a r) :
    r.1.lookups.map Lookup.name = a.names ++ (step limit a.config).names := by
  cases h with
  | stopped h =>
    rw [h]
    exact (List.append_nil _).symm
  | refused h hf | divided h hf =>
    rw [h]
    exact map_name_concat hf _

/-- An evaluation comes to where its next step has read to. -/
theorem passes_step (ask : String → StateM σ Reply) (limit : Nat) (a : Moment σ) :
    a.Passes ask limit (step limit a.config).unread (a.names ++ (step limit a.config).names) := by
  rcases goes_or_ends ask limit a with ⟨b, hab, -⟩ | ⟨r, hr⟩
  · exact .through (.single hab) hab.unread_eq hab.names_eq
  · exact .upTo hr.finish_eq hr.unread_eq hr.names_eq

theorem Passes.head (h : Goes ask limit a b) {unread : List Char} {names : List String}
    (hb : b.Passes ask limit unread names) : a.Passes ask limit unread names := by
  cases hb with
  | through hreaches hu hn => exact .through (.head h hreaches) hu hn
  | upTo hr hu hn => exact .upTo (h.finish_eq.trans hr) hu hn

/-- What ends because of a value has read something with its last step. -/
theorem Ends.length_lt (h : Ends ask limit a r) (ha : ∀ p ∈ a.asked, p.accepted = true) (hr : r.1.Breaks) :
    r.1.unread.length < a.config.unread.length := by
  cases h with
  | stopped h =>
    rcases hr with hr | ⟨p, hp, hrefused⟩
    · cases hr
      cases rule_iff.2 h with
      | divided hs =>
        obtain ⟨c, rest, rfl, -⟩ := Lexeme.covers_iff.1 hs
        simp only [Config.unread, List.length_append, List.length_cons]
        omega
      | groupDivided => simp [Config.unread]
      | badNumber hs hr hf => cases Number.fault_of_read hf
    · rw [ha p hp] at hrefused
      cases hrefused
  | refused h | divided h => exact length_lt_of_step_lookup h

/-- What ends because of a value has read on since any moment before. -/
theorem length_lt_of_breaks (h : ReflTransGen (Goes ask limit) a b) (ha : ∀ p ∈ a.asked, p.accepted = true)
    (hr : (a.finish ask limit).1.Breaks) : (a.finish ask limit).1.unread.length < b.config.unread.length := by
  have hb : ∀ p ∈ b.asked, p.accepted = true :=
    kept_of_reaches (P := fun a => ∀ p ∈ a.asked, p.accepted = true) Goes.accepted h ha
  rw [finish_eq_of_reaches h] at hr ⊢
  obtain ⟨last, hreaches, hends⟩ := finish_eq_iff.1 (rfl : b.finish ask limit = _)
  have hlast : ∀ p ∈ last.asked, p.accepted = true :=
    kept_of_reaches (P := fun a => ∀ p ∈ a.asked, p.accepted = true) Goes.accepted hreaches hb
  have hle : last.config.unread.length ≤ b.config.unread.length :=
    (kept_of_reaches (P := fun c => c.config.unread <:+ b.config.unread) (fun h hc => h.unread_suffix.trans hc) hreaches
      List.suffix_rfl).length_le
  exact Nat.lt_of_lt_of_le (hends.length_lt hlast hr) hle

/-- Where the value of a name ends an evaluation, either it divides or its reply was refused. -/
theorem exists_breaks_or_goes {name : String} {outer : List Pending} {here : Pending} {unread : List Char}
    (h : step limit a.config = .lookup name outer here unread) (ask : String → StateM σ Reply) :
    (∃ r, a.finish ask limit = r ∧ r.1.Breaks ∧ r.1.unread = unread ∧
      r.1.lookups.map Lookup.name = a.names ++ [name]) ∨
    ∃ b product, Goes ask limit a b ∧ b.names = a.names ++ [name] ∧
      b.config = .operator outer here.sum product unread := by
  obtain ⟨c, s, lookups, memory⟩ := a
  rcases hf : (s.resolve ask name).run memory with ⟨found, memory'⟩
  cases hv : found.value with
  | error fault =>
    obtain ⟨reply, hs, hreply, rfl⟩ := (Store.resolves_of_run hf).of_error hv
    have hends : Ends ask limit ⟨c, s, lookups, memory⟩ _ := .refused h hf hv
    refine .inl ⟨_, hends.finish_eq, .inr ⟨(name, reply), ?_, Prompt.accepted_of_error hreply⟩, rfl, ?_⟩
    · exact List.mem_filterMap.2 ⟨_, List.mem_append_right _ List.mem_cons_self, rfl⟩
    · exact map_name_concat hf _
  | ok value =>
    cases hm : here.multiply value with
    | error fault =>
      obtain rfl := Pending.multiply_eq_error hm
      have hends : Ends ask limit ⟨c, s, lookups, memory⟩ _ := .divided h hf hv hm
      exact .inl ⟨_, hends.finish_eq, .inl rfl, rfl, map_name_concat hf _⟩
    | ok product => exact .inr ⟨_, product, .resumed h hf hv hm, map_name_concat hf _, rfl⟩

end

variable {σ τ : Type} {ask : String → StateM σ Reply} {ask' : String → StateM τ Reply} {limit : Nat}

/-- What two evaluations come to from two moments on: the same, their numbers apart, or a value ends one of them at a
place where the other one comes by. -/
inductive SideBySide (ask : String → StateM σ Reply) (ask' : String → StateM τ Reply) (limit : Nat) (a : Moment σ)
    (a' : Moment τ) : Prop where
  | alike (h : (a.finish ask limit).1.Alike (a'.finish ask' limit).1)
  | leftBreaks (h : (a.finish ask limit).1.Breaks) (hp : a'.Passes ask' limit (a.finish ask limit).1.unread
      ((a.finish ask limit).1.lookups.map Lookup.name))
  | rightBreaks (h : (a'.finish ask' limit).1.Breaks) (hp : a.Passes ask limit (a'.finish ask' limit).1.unread
      ((a'.finish ask' limit).1.lookups.map Lookup.name))

theorem SideBySide.head {a b : Moment σ} {a' b' : Moment τ} (h : Goes ask limit a b) (h' : Goes ask' limit a' b')
    (hb : SideBySide ask ask' limit b b') : SideBySide ask ask' limit a a' := by
  cases hb with
  | alike hb => exact .alike (by rwa [h.finish_eq, h'.finish_eq])
  | leftBreaks hb hp => exact .leftBreaks (by rwa [h.finish_eq]) (by rw [h.finish_eq]; exact hp.head h')
  | rightBreaks hb hp => exact .rightBreaks (by rwa [h'.finish_eq]) (by rw [h'.finish_eq]; exact hp.head h)

theorem finish_of_stop (ask : String → StateM σ Reply) {a : Moment σ} {outcome : Except Fault Float}
    {unread : List Char} (h : step limit a.config = .stop outcome unread) :
    a.finish ask limit = (⟨outcome, a.store, a.lookups, unread⟩, a.memory) :=
  (Ends.stopped h).finish_eq

theorem sideBySide_of_stop (ask : String → StateM σ Reply) (ask' : String → StateM τ Reply) {a : Moment σ}
    {a' : Moment τ} {outcome : Except Fault Float} {unread : List Char}
    (hs : step limit a.config = .stop outcome unread) (hc : a.config.outline = a'.config.outline)
    (hn : a.names = a'.names) : SideBySide ask ask' limit a a' := by
  have hpasses' := passes_step ask' limit a'
  have halike := step_alike limit hc
  have hr := finish_of_stop ask hs
  rw [hs] at halike
  generalize hs' : step limit a'.config = next' at halike hpasses'
  cases halike with
  | failed =>
    have hr' := finish_of_stop ask' hs'
    exact .alike (by rw [hr, hr']; exact ⟨.inr ⟨_, rfl, rfl⟩, hn, rfl⟩)
  | succeeded =>
    have hr' := finish_of_stop ask' hs'
    exact .alike (by rw [hr, hr']; exact ⟨.inl ⟨_, _, rfl, rfl⟩, hn, rfl⟩)
  | leftDivided h =>
    refine .leftBreaks (by rw [hr]; exact .inl rfl) ?_
    rw [hr, ← h]
    change a'.Passes ask' limit _ a.names
    rw [hn, ← List.append_nil a'.names]
    exact hpasses'

/-- Where both look up a name, a value ends one of them, or they go on alike. -/
theorem sideBySide_or_goes (ask : String → StateM σ Reply) (ask' : String → StateM τ Reply) {a : Moment σ}
    {a' : Moment τ} {name : String} {outer outer' : List Pending} {here here' : Pending} {unread : List Char}
    (hs : step limit a.config = .lookup name outer here unread)
    (hs' : step limit a'.config = .lookup name outer' here' unread)
    (ho : outer.map Pending.operators = outer'.map Pending.operators) (hh : here.operators = here'.operators)
    (hn : a.names = a'.names) : SideBySide ask ask' limit a a' ∨
      ∃ b b', Goes ask limit a b ∧ Goes ask' limit a' b' ∧ b.config.outline = b'.config.outline ∧
        b.names = b'.names ∧ b.config.unread = unread := by
  have hpasses := passes_step ask limit a
  have hpasses' := passes_step ask' limit a'
  rw [hs] at hpasses
  rw [hs'] at hpasses'
  rcases exists_breaks_or_goes hs ask with ⟨r, rfl, hbreaks, hu, hnames⟩ | ⟨b, product, hgoes, hb, hconfig⟩
  · exact .inl (.leftBreaks hbreaks (by rw [hu, hnames, hn]; exact hpasses'))
  rcases exists_breaks_or_goes hs' ask' with ⟨r', rfl, hbreaks, hu, hnames⟩ | ⟨b', product', hgoes', hb', hconfig'⟩
  · exact .inl (.rightBreaks hbreaks (by rw [hu, hnames, ← hn]; exact hpasses))
  have hsum : here.sum.map Prod.snd = here'.sum.map Prod.snd := congrArg Prod.fst hh
  refine .inr ⟨b, b', hgoes, hgoes', ?_, by rw [hb, hb', hn], by rw [hconfig]; rfl⟩
  rw [hconfig, hconfig', Config.outline, Config.outline, ho, hsum]

/-- **Two evaluations go side by side** from moments with one outline, whoever replies. -/
theorem sideBySide (ask : String → StateM σ Reply) (ask' : String → StateM τ Reply) {a : Moment σ} {a' : Moment τ}
    (hc : a.config.outline = a'.config.outline) (hn : a.names = a'.names) : SideBySide ask ask' limit a a' := by
  have hpasses := passes_step ask limit a
  have halike := step_alike limit hc
  cases hs : step limit a.config with
  | stop outcome unread => exact sideBySide_of_stop ask ask' hs hc hn
  | move next =>
    rw [hs] at halike hpasses
    generalize hs' : step limit a'.config = next' at halike
    cases halike with
    | @moved _ next' h =>
      have hgoes : Goes ask limit a { a with config := next } := .moved hs
      have hgoes' : Goes ask' limit a' { a' with config := next' } := .moved hs'
      have hlt := length_lt_of_step_move hs
      exact .head hgoes hgoes' (sideBySide ask ask' h hn)
    | rightDivided h =>
      have hr' := finish_of_stop ask' hs'
      refine .rightBreaks (by rw [hr']; exact .inl rfl) ?_
      rw [hr', ← h]
      change a.Passes ask limit _ a'.names
      rw [← hn, ← List.append_nil a.names]
      exact hpasses
  | lookup name outer here unread =>
    rw [hs] at halike
    generalize hs' : step limit a'.config = next' at halike
    cases halike with
    | lookup ho hh =>
      have hlt := length_lt_of_step_lookup hs
      rcases sideBySide_or_goes ask ask' hs hs' ho hh hn with h | ⟨b, b', hgoes, hgoes', hb, hnames, hunread⟩
      · exact h
      · exact .head hgoes hgoes' (sideBySide ask ask' hb hnames)
-- both sides read the same text, so the left one stands for the two of them
termination_by a.config.unread.length
decreasing_by
  · exact hlt
  · rw [hunread]
    exact hlt

end Moment
end Machine

open Machine (Moment)

section

variable {σ τ : Type} {ask : String → StateM σ Reply} {ask' : String → StateM τ Reply} {limit : Nat} {s s' : Store}
  {memory : σ} {memory' : τ} {r : Evaluation × σ} {r' : Evaluation × τ}

/-- **Values never steer what is read.**  Two evaluations of an expression that no value ends come to the same, their
numbers apart.  Where a value ends one of them, the other one comes by that place after the same lookups, unless a value
has ended it before, at a place where the first one came by in the same way. -/
theorem evaluate_alike {expression : String} (hr : (evaluate ask limit s expression).run memory = r)
    (hr' : (evaluate ask' limit s' expression).run memory' = r') :
    (¬ r.1.Breaks → ¬ r'.1.Breaks → r.1.Alike r'.1) ∧
    (r.1.Breaks →
      (Moment.start (withoutWhiteSpace expression) s' memory').Passes ask' limit r.1.unread
        (r.1.lookups.map Lookup.name) ∨
      r'.1.Breaks ∧ r.1.unread.length < r'.1.unread.length ∧
        (Moment.start (withoutWhiteSpace expression) s memory).Passes ask limit r'.1.unread
          (r'.1.lookups.map Lookup.name)) := by
  have hfinish := (run_evaluateSource ask limit s (withoutWhiteSpace expression) memory).symm.trans hr
  have hfinish' := (run_evaluateSource ask' limit s' (withoutWhiteSpace expression) memory').symm.trans hr'
  have hside : Moment.SideBySide ask ask' limit (.start (withoutWhiteSpace expression) s memory)
      (.start (withoutWhiteSpace expression) s' memory') := Moment.sideBySide ask ask' rfl rfl
  subst hfinish hfinish'
  cases hside with
  | alike h => exact ⟨fun _ _ => h, fun _ => .inl (.upTo rfl h.unread.symm h.names.symm)⟩
  | leftBreaks h hp => exact ⟨fun hnot => absurd h hnot, fun _ => .inl hp⟩
  | rightBreaks h hp =>
    refine ⟨fun _ hnot => absurd h hnot, fun hbreaks => ?_⟩
    cases hp with
    | upTo hr hu hn =>
      subst hr
      exact .inl (.upTo rfl hu.symm hn.symm)
    | through hreaches hu hn =>
      have hlt := Moment.length_lt_of_breaks hreaches (fun p hp => nomatch hp) hbreaks
      rw [hu] at hlt
      exact .inr ⟨h, hlt, .through hreaches hu hn⟩

/-- A zero ends the one evaluation inside of a product, and the other one, which has found a name bound, comes by there
and fails at the parenthesis that is not closed. -/
theorem evaluate_alike_zero_product :
    let ask : String → StateM Nat Reply := fun _ => modifyGet fun left => (.ok (toString left), left - 1)
    let expression := "(a - b) / c * (d + a"
    let s := Store.empty.insert "c" 5
    let r := (evaluate ask 2 .empty expression).run 2
    let r' := (evaluate ask 2 s expression).run 9
    (r.1.outcome = .error .divisionByZero ∧ r.1.prompts = ["a", "b", "c"] ∧
      r.1.unread = "*(d+a".toList ∧ r'.1.outcome = .error .mismatchedParenthesis ∧
      r'.1.prompts = ["a", "b", "d"]) ∧
    (¬ r.1.Breaks → ¬ r'.1.Breaks → r.1.Alike r'.1) ∧
    (r.1.Breaks →
      (Moment.start (withoutWhiteSpace expression) s 9).Passes ask 2 r.1.unread
        (r.1.lookups.map Lookup.name) ∨
      r'.1.Breaks ∧ r.1.unread.length < r'.1.unread.length ∧
        (Moment.start (withoutWhiteSpace expression) .empty 2).Passes ask 2 r'.1.unread
          (r'.1.lookups.map Lookup.name)) := by
  intro ask expression s r r'
  exact ⟨by decide +kernel, evaluate_alike rfl rfl⟩

end

end Calculator
