import Calculator.Cursor
import Calculator.Proofs.FaultPlace
import Calculator.Proofs.Moment
import Calculator.Proofs.Prompts
/-!
# Proofs.Lookahead — one character decides

A step looks at one character more than it reads, and at no other.  So where an evaluation leaves something unread, it
goes through the same steps whatever else is written behind (`Machine.step_append`), and to fail before the last
character is to fail in the same way in front of every text that begins so (`evaluateSource_lookahead`).
-/
namespace Calculator

open Relation (ReflTransGen)

/-! ## More text behind -/

def Evaluation.append (t : List Char) (e : Evaluation) : Evaluation := { e with unread := e.unread ++ t }

namespace Machine

def Config.append (t : List Char) : Config → Config
  | operand outer here unread => operand outer here (unread ++ t)
  | operator outer sum product unread => operator outer sum product (unread ++ t)

def Step.append (t : List Char) : Step → Step
  | stop outcome unread => stop outcome (unread ++ t)
  | move next => move (next.append t)
  | lookup name outer here unread => lookup name outer here (unread ++ t)

theorem Rule.append {limit : Nat} {c : Config} {next : Step} (h : Rule limit c next) (hu : next.unread ≠ [])
    (t : List Char) : Rule limit (c.append t) (next.append t) := by
  cases h with
  -- these alone see where the text ends, and they leave nothing unread
  | ended | finished | unclosed => exact absurd rfl hu
  | badNumber hs hr hf =>
    rw [Config.append, List.append_assoc]
    exact .badNumber hs (hr.append hu t) hf
  | divided hs hr hv hm =>
    rw [Config.append, List.append_assoc]
    exact .divided hs (hr.append hu t) hv hm
  | number hs hr hv hm =>
    rw [Config.append, List.append_assoc]
    exact .number hs (hr.append hu t) hv hm
  | name hs hr =>
    rw [Config.append, List.append_assoc]
    exact .name hs (hr.append hu t)
  | tooDeep hd => exact .tooDeep hd
  | opened hd => exact .opened hd
  | strange hc hp => exact .strange hc hp
  | times op => exact .times op
  | plus op => exact .plus op
  | unopened => exact .unopened
  | unknown hc => exact .unknown hc
  | groupDivided hm => exact .groupDivided hm
  | closed hm => exact .closed hm
  | unmatched hc => exact .unmatched hc

/-- **A step that leaves something unread** is the same step in front of more text. -/
theorem step_append {limit : Nat} {c : Config} (hu : (step limit c).unread ≠ []) (t : List Char) :
    step limit (c.append t) = (step limit c).append t :=
  step_of_rule ((rule_step limit c).append hu t)

namespace Moment

variable {σ : Type} {ask : String → StateM σ Reply} {limit : Nat} {a b : Moment σ} {r : Evaluation × σ}

def append (t : List Char) (a : Moment σ) : Moment σ := { a with config := a.config.append t }

theorem Goes.append {t : List Char} (h : Goes ask limit a b) (hb : b.config.unread ≠ []) :
    a.config.unread ≠ [] ∧ Goes ask limit (a.append t) (b.append t) := by
  rw [h.unread_eq] at hb
  have hstep := step_append hb t
  refine ⟨(rule_step limit a.config).unread_suffix.ne_nil hb, ?_⟩
  cases h with
  | moved h =>
    rw [h] at hstep
    exact .moved hstep
  | resumed h hf hv hm =>
    rw [h] at hstep
    exact .resumed hstep hf hv hm

theorem Ends.append (h : Ends ask limit a r) (hr : r.1.unread ≠ []) (t : List Char) :
    a.config.unread ≠ [] ∧ Ends ask limit (a.append t) (r.1.append t, r.2) := by
  rw [h.unread_eq] at hr
  have hstep := step_append hr t
  refine ⟨(rule_step limit a.config).unread_suffix.ne_nil hr, ?_⟩
  cases h with
  | stopped h =>
    rw [h] at hstep
    exact .stopped hstep
  | refused h hf hv =>
    rw [h] at hstep
    exact .refused hstep hf hv
  | divided h hf hv hm =>
    rw [h] at hstep
    exact .divided hstep hf hv hm

/-- **What leaves something unread** is the same in front of more text. -/
theorem finish_append (h : a.finish ask limit = r) (hr : r.1.unread ≠ []) (t : List Char) :
    (a.append t).finish ask limit = (r.1.append t, r.2) := by
  obtain ⟨b, hreaches, hends⟩ := finish_eq_iff.1 h
  obtain ⟨hb, hends⟩ := hends.append hr t
  have hreaches := reaches_map (f := append t) (P := fun a => a.config.unread ≠ []) Goes.append hreaches hb
  exact finish_eq_iff.2 ⟨b.append t, hreaches.2, hends⟩

end Moment
end Machine

/-! ## The names in what has been read -/

/-- Whether a name is an operand in the part of a source that has been read. -/
def Occurs (name : String) (source unread : List Char) : Prop :=
  ∃ upto between, upto ++ between ++ unread = source ∧ Lexeme.name.Closes name.toList upto (between ++ unread)

theorem Occurs.of_suffix {name : String} {source unread rest : List Char} (h : Occurs name source unread)
    (hr : rest <:+ unread) : Occurs name source rest := by
  obtain ⟨upto, between, hsource, hcloses⟩ := h
  obtain ⟨more, rfl⟩ := hr
  refine ⟨upto, between ++ more, ?_, ?_⟩
  · simpa only [List.append_assoc] using hsource
  · rwa [List.append_assoc]

namespace Machine

theorem occurs_of_resolves {limit : Nat} {source : List Char} {c : Config} {s : Store} {name : String}
    {outer : List Pending} {here : Pending} {unread : List Char} {found : Resolution}
    (hc : Reading.Mirrored limit source c s) (h : step limit c = .lookup name outer here unread)
    (hf : s.Resolves name found) : Occurs found.lookup.name source unread := by
  obtain ⟨r, hr, -, htext⟩ := hc
  obtain ⟨outer, here, span, rfl, -, -, hunread, rfl, hs, hends⟩ := hr.of_lookup h
  rw [hunread, ← List.append_assoc] at htext
  rw [hf.name_lookup]
  refine ⟨_, [], by rwa [List.append_nil], _, Reading.operandDue outer here, ?_, ?_, hends⟩
  · rw [String.toList_ofList]
  · rwa [String.toList_ofList]

namespace Moment

variable {σ : Type} {ask : String → StateM σ Reply} {limit : Nat} {source : List Char} {a b : Moment σ}
  {r : Evaluation × σ}

/-- A moment before which only names in what has been read were looked up. -/
structure LooksBack (limit : Nat) (source : List Char) (a : Moment σ) : Prop where
  mirrored : Reading.Mirrored limit source a.config a.store
  occurs : ∀ l ∈ a.lookups, Occurs l.name source a.config.unread

namespace LooksBack

theorem occurs_step (ha : a.LooksBack limit source) :
    ∀ l ∈ a.lookups, Occurs l.name source (step limit a.config).unread := fun l hl =>
  (ha.occurs l hl).of_suffix (rule_step limit a.config).unread_suffix

theorem occurs_lookup (ha : a.LooksBack limit source) {name : String} {outer : List Pending} {here : Pending}
    {unread : List Char} {found : Resolution} (h : step limit a.config = .lookup name outer here unread)
    (hf : a.store.Resolves name found) : ∀ l ∈ a.lookups ++ [found.lookup], Occurs l.name source unread := by
  have hbefore := ha.occurs_step
  rw [h] at hbefore
  intro l hl
  rcases List.mem_append.1 hl with hl | hl
  · exact hbefore l hl
  · rw [List.mem_singleton.1 hl]
    exact occurs_of_resolves ha.mirrored h hf

end LooksBack

theorem Goes.looksBack (h : Goes ask limit a b) (ha : a.LooksBack limit source) : b.LooksBack limit source := by
  cases h with
  | moved h =>
    have hoccurs := ha.occurs_step
    rw [h] at hoccurs
    exact ⟨(Reading.mirrored_kept limit source).move ha.mirrored h, hoccurs⟩
  | resumed h hf hv hm =>
    have hf := Store.resolves_of_run hf
    exact ⟨(Reading.mirrored_kept limit source).resume ha.mirrored h hf hv hm, ha.occurs_lookup h hf⟩

theorem Ends.occurs (h : Ends ask limit a r) (ha : a.LooksBack limit source) :
    ∀ l ∈ r.1.lookups, Occurs l.name source r.1.unread := by
  cases h with
  | stopped h =>
    have hoccurs := ha.occurs_step
    rw [h] at hoccurs
    exact hoccurs
  | refused h hf | divided h hf => exact ha.occurs_lookup h (Store.resolves_of_run hf)

end Moment
end Machine

/-! ## How far an evaluation has read -/

namespace Evaluation

/-- How many bytes of its source an evaluation has read. -/
def position (source : String) (e : Evaluation) : Nat := byteLength source.toList - byteLength e.unread

theorem position_append (source t : String) (e : Evaluation) :
    (e.append t.toList).position (source ++ t) = e.position source := by
  rw [position, append, String.toList_append, byteLength_append, byteLength_append, Nat.add_sub_add_right, position]

theorem unread_ne_nil {u : String} {c : Char} {e : Evaluation} (h : e.position (u.push c) ≤ byteLength u.toList) :
    e.unread ≠ [] := by
  intro hu
  have hc := c.utf8Size_pos
  rw [position, hu, String.toList_push, byteLength_append] at h
  simp only [byteLength] at h
  omega

end Evaluation

section

variable {σ : Type} {ask : String → StateM σ Reply} {limit : Nat} {s : Store} {source : String} {memory : σ}
  {r : Evaluation × σ}

open Machine (Moment)

theorem evaluateSource_append (hr : (evaluateSource ask limit s source).run memory = r) (hu : r.1.unread ≠ [])
    (t : String) : (evaluateSource ask limit s (source ++ t)).run memory = (r.1.append t.toList, r.2) := by
  rw [run_evaluateSource] at hr
  rw [run_evaluateSource, Moment.start, String.toList_append]
  exact Moment.finish_append hr hu t.toList

/-- Only names in what has been read are asked for, and only these are bound. -/
theorem not_mem_prompts_of_not_occurs (hr : (evaluateSource ask limit s source).run memory = r) {name : String}
    (hn : ¬ Occurs name source.toList r.1.unread) : name ∉ r.1.prompts ∧ r.1.store.get? name = s.get? name := by
  have hx : r.1.Exchange s := hr ▸ (Dialogue.yields_run ask (dialogueOf limit source) s memory).exchange
  obtain ⟨b, hreaches, hends⟩ := Moment.finish_eq_iff.1
    ((run_evaluateSource ask limit s source memory).symm.trans hr)
  have hstart : (Moment.start source s memory).LooksBack limit source.toList :=
    ⟨Reading.mirrored_start limit source.toList s, fun l hl => nomatch hl⟩
  have hoccurs := hends.occurs (Moment.kept_of_reaches Moment.Goes.looksBack hreaches hstart)
  have hprompts : name ∉ r.1.prompts := fun hmem => by
    obtain ⟨l, hl, hprompt⟩ := List.mem_filterMap.1 hmem
    cases l with
    | known => cases hprompt
    | asked =>
      cases hprompt
      exact hn (hoccurs _ hl)
  exact ⟨hprompts, hx.get?_of_not_mem hprompts⟩

/-- **Nothing to the right of a fault matters.**  An evaluation that fails before it has read the last character fails
in the same way, at the same place and after the same lookups, in front of every text that follows.  A name that is no
operand of what has been read is not asked for, and is bound as it was. -/
theorem evaluateSource_lookahead {u : String} {c : Char} {fault : Fault}
    (hr : (evaluateSource ask limit s (u.push c)).run memory = r) (hfault : r.1.outcome = .error fault)
    (hc : r.1.position (u.push c) ≤ byteLength u.toList) (t : String) :
    ∃ e, (evaluateSource ask limit s (u.push c ++ t)).run memory = (e, r.2) ∧ e.outcome = .error fault ∧
      e.lookups = r.1.lookups ∧ e.prompts = r.1.prompts ∧ e.store = r.1.store ∧
      e.position (u.push c ++ t) = r.1.position (u.push c) ∧
      ∀ name, ¬ Occurs name (u.push c ++ t).toList e.unread →
        name ∉ e.prompts ∧ e.store.get? name = s.get? name := by
  have happend := evaluateSource_append hr (Evaluation.unread_ne_nil hc) t
  refine ⟨r.1.append t.toList, happend, hfault, rfl, rfl, rfl, Evaluation.position_append _ t r.1, fun name hn => ?_⟩
  exact not_mem_prompts_of_not_occurs happend hn

/-- The number before the parenthesis is malformed wherever it is written, and the name behind is never asked for. -/
theorem evaluateSource_lookahead_malformed :
    let ask : String → StateM Nat Reply := fun _ => modifyGet fun asked => (.ok "2", asked + 1)
    let r := (evaluateSource ask 1 .empty ("λ*(1.2.3".push ')')).run 0
    (r.1.outcome = .error (.malformedNumber "1.2.3") ∧ r.1.prompts = ["λ"] ∧
      r.1.position ("λ*(1.2.3".push ')') ≤ byteLength "λ*(1.2.3".toList) ∧
    ∃ e, (evaluateSource ask 1 .empty ("λ*(1.2.3".push ')' ++ "+x")).run 0 = (e, r.2) ∧
      e.outcome = .error (.malformedNumber "1.2.3") ∧ e.lookups = r.1.lookups ∧ e.prompts = r.1.prompts ∧
      e.store = r.1.store ∧ e.position ("λ*(1.2.3".push ')' ++ "+x") = r.1.position ("λ*(1.2.3".push ')') ∧
      ∀ name, ¬ Occurs name ("λ*(1.2.3".push ')' ++ "+x").toList e.unread →
        name ∉ e.prompts ∧ e.store.get? name = Store.empty.get? name := by
  intro ask r
  have hfault : r.1.outcome = .error (.malformedNumber "1.2.3") := by decide +kernel
  have hc : r.1.position ("λ*(1.2.3".push ')') ≤ byteLength "λ*(1.2.3".toList := by decide +kernel
  exact ⟨⟨hfault, by decide +kernel, hc⟩, evaluateSource_lookahead rfl hfault hc "+x"⟩

end

end Calculator
