import Calculator.Proofs.FaultPlace
import Calculator.Proofs.Moment
/-!
# Proofs.NestingLimit — a limit on nesting cuts off and does nothing else

Two evaluations that differ in their limits go through the same moments until one of them reads a parenthesis that its
limit forbids (`Machine.Moment.Goes.of_le`).  How many parentheses are open is seen in the text that has been read
(`unclosed`), so the text says where an evaluation under the lower limit is cut off, if it is (`evaluate_limit`).
-/
namespace Calculator

open Relation (ReflTransGen)

theorem Lexeme.ne_paren_of_mem_operators {c : Char} (h : c ∈ operators) : c ≠ '(' ∧ c ≠ ')' := by
  constructor <;> rintro rfl <;> exact absurd h (by decide)

/-- Whether at no place in a text more than `limit` parentheses are open. -/
def NestedWithin (limit : Nat) (text : List Char) : Prop := ∀ before, before <+: text → unclosed before ≤ limit

/-- What a part of a text does to the number of open parentheses, if it has at most one parenthesis and nothing else
beside it. -/
inductive Nests : Nat → List Char → Nat → Prop where
  | plain {depth : Nat} {text : List Char} (h : ∀ c ∈ text, c ≠ '(' ∧ c ≠ ')') : Nests depth text depth
  | opened {depth : Nat} : Nests depth ['('] (depth + 1)
  | closed {depth : Nat} : Nests (depth + 1) [')'] depth

theorem NestedWithin.nil (limit : Nat) : NestedWithin limit [] := fun before h => by
  rw [List.prefix_nil.1 h]
  exact Nat.zero_le limit

theorem Nests.foldl_eq {depth depth' : Nat} {taken : List Char} (h : Nests depth taken depth') :
    taken.foldl nest depth = depth' := by
  cases h with
  | plain h => exact foldl_nest_of_plain depth h
  | opened | closed => rfl

theorem Nests.foldl_le {depth depth' limit : Nat} {taken : List Char} (h : Nests depth taken depth')
    (hd : depth ≤ limit) (hd' : depth' ≤ limit) : ∀ before, before <+: taken → before.foldl nest depth ≤ limit := by
  intro before hb
  cases h with
  | plain h =>
    rw [foldl_nest_of_plain depth fun c hc => h c (hb.subset hc)]
    exact hd
  | opened | closed =>
    rcases List.prefix_cons_iff.1 hb with rfl | ⟨more, rfl, hmore⟩
    · exact hd
    · rw [List.prefix_nil.1 hmore]
      exact hd'

/-- Reading on, with no more parentheses open than the limit allows. -/
theorem NestedWithin.append {limit depth : Nat} {text taken : List Char} (h : NestedWithin limit text)
    (hn : Nests (unclosed text) taken depth) (hd : depth ≤ limit) : NestedWithin limit (text ++ taken) := by
  intro before hb
  rcases List.prefix_or_prefix_of_prefix hb (List.prefix_append text taken) with hb' | ⟨more, rfl⟩
  · exact h before hb'
  · rw [unclosed_append]
    exact hn.foldl_le (h text List.prefix_rfl) hd more ((List.prefix_append_right_inj text).1 hb)

namespace Machine

/-- Whether the next character is a parenthesis that the limit forbids. -/
def Config.Exceeds (limit : Nat) (c : Config) : Prop :=
  ∃ outer here rest, c = .operand outer here ('(' :: rest) ∧ limit ≤ outer.length

/-- How many parentheses are open after a step that goes on. -/
def Step.depth? : Step → Option Nat
  | stop _ _ => none
  | move next => some next.depth
  | lookup _ outer _ _ => some outer.length

/-- Whether a configuration has read its part of the source with no more than `limit` parentheses open at any place, and
has as many open as this part has. -/
def ReadWithin (limit : Nat) (source : List Char) (c : Config) : Prop :=
  ∃ read, read ++ c.unread = source ∧ unclosed read = c.depth ∧ NestedWithin limit read

variable {m n limit : Nat} {source : List Char} {c : Config}

/-- **Nothing else sees the limit.** -/
theorem step_of_le (hmn : m ≤ n) (hc : ¬ c.Exceeds m) : step n c = step m c := by
  rcases c with ⟨outer, here, _ | ⟨c, rest⟩⟩ | ⟨outer, sum, product, unread⟩
  · rfl
  · by_cases hp : c = '('
    · subst hp
      have hd : outer.length < m := Nat.lt_of_not_le fun hd => hc ⟨outer, here, rest, rfl, hd⟩
      rw [step_of_rule (.opened hd), step_of_rule (.opened (Nat.lt_of_lt_of_le hd hmn))]
    · simp only [step, operandStep, if_neg hp]
  · rfl

/-- What a step reads, and how many parentheses are open then. -/
theorem Rule.nests {s : Step} (h : Rule limit c s) (hc : ¬ c.Exceeds limit) (hd : c.depth ≤ limit) :
    ∃ taken depth, c.unread = taken ++ s.unread ∧ Nests c.depth taken depth ∧ depth ≤ limit ∧
      ∀ d ∈ s.depth?, d = depth := by
  cases h with
  | tooDeep hlimit => exact absurd ⟨_, _, _, rfl, hlimit⟩ hc
  | opened hlimit => exact ⟨['('], _, rfl, .opened, hlimit, fun d h => by cases h; rfl⟩
  | closed | groupDivided =>
    exact ⟨[')'], _, rfl, .closed, Nat.le_of_succ_le hd, fun d h => by cases h <;> rfl⟩
  | number hs | badNumber hs | divided hs | name hs =>
    exact ⟨_, _, rfl, .plain (Lexeme.ne_paren_of_covers hs), hd, fun d h => by cases h <;> rfl⟩
  | times op | plus op =>
    have hop := Lexeme.ne_paren_of_mem_operators op.symbol_mem_operators
    exact ⟨[op.symbol], _, rfl, .plain fun d h => List.mem_singleton.1 h ▸ hop, hd, fun d h => by cases h; rfl⟩
  | ended | strange | finished | unclosed | unopened | unknown | unmatched =>
    exact ⟨[], _, rfl, .plain fun d hd => (List.not_mem_nil hd).elim, hd, fun d h => nomatch h⟩

theorem ReadWithin.start (limit : Nat) (source : List Char) : ReadWithin limit source (.start source) :=
  ⟨[], rfl, rfl, .nil limit⟩

theorem ReadWithin.step {s : Step} (h : ReadWithin limit source c) (hc : ¬ c.Exceeds limit) (hs : Rule limit c s) :
    ∃ read, read ++ s.unread = source ∧ NestedWithin limit read ∧ ∀ d ∈ s.depth?, unclosed read = d := by
  obtain ⟨read, hread, hdepth, hwithin⟩ := h
  have hd : c.depth ≤ limit := hdepth ▸ hwithin read List.prefix_rfl
  obtain ⟨taken, depth, hunread, hnests, hle, hnext⟩ := hs.nests hc hd
  rw [← hdepth] at hnests
  refine ⟨read ++ taken, ?_, hwithin.append hnests hle, fun d hd => ?_⟩
  · rw [List.append_assoc, ← hunread, hread]
  · rw [unclosed_append, hnests.foldl_eq, hnext d hd]

namespace Moment

variable {σ : Type} {ask : String → StateM σ Reply} {a b : Moment σ} {r : Evaluation × σ}

theorem Goes.not_exceeds (h : Goes ask limit a b) : ¬ a.config.Exceeds limit := by
  rintro ⟨outer, here, rest, hc, hd⟩
  cases h with
  | moved h | resumed h =>
    cases hc
    rw [step_of_rule (.tooDeep hd)] at h
    cases h

theorem Goes.readWithin (h : Goes ask limit a b) (ha : ReadWithin limit source a.config) :
    ReadWithin limit source b.config := by
  obtain ⟨read, hread, hwithin, hdepth⟩ := ha.step h.not_exceeds (rule_step limit a.config)
  rw [← h.unread_eq] at hread
  refine ⟨read, hread, hdepth _ ?_, hwithin⟩
  cases h with
  | moved h | resumed h => rw [h]; rfl

/-- **A step that a limit allows is the same step under every higher one.** -/
theorem Goes.of_le (hmn : m ≤ n) (h : Goes ask m a b) : Goes ask n a b := by
  have hstep := step_of_le hmn h.not_exceeds
  cases h with
  | moved h => exact .moved (hstep.trans h)
  | resumed h hf hv hm => exact .resumed (hstep.trans h) hf hv hm

theorem Ends.of_le (hmn : m ≤ n) (hc : ¬ a.config.Exceeds m) (h : Ends ask m a r) : Ends ask n a r := by
  have hstep := step_of_le hmn hc
  cases h with
  | stopped h => exact .stopped (hstep.trans h)
  | refused h hf hv => exact .refused (hstep.trans h) hf hv
  | divided h hf hv hm => exact .divided (hstep.trans h) hf hv hm

/-- Before a parenthesis that the limit forbids as many are open as it allows, and nothing but this parenthesis is read
any more. -/
theorem Ends.of_exceeds (h : Ends ask m a r) (hc : a.config.Exceeds m) (ha : ReadWithin m source a.config) :
    ∃ outer here before, a = ⟨.operand outer here ('(' :: r.1.unread), r.1.store, r.1.lookups, r.2⟩ ∧
      r.1.outcome = .error (.tooDeep m) ∧ before ++ '(' :: r.1.unread = source ∧ unclosed before = m ∧
      NestedWithin m before := by
  obtain ⟨outer, here, rest, hc, hd⟩ := hc
  obtain ⟨before, hbefore, hdepth, hwithin⟩ := ha
  have hstep : step m a.config = .stop (.error (.tooDeep m)) rest := by
    rw [hc]
    exact step_of_rule (.tooDeep hd)
  rw [hc] at hbefore hdepth
  have hle : outer.length ≤ m := Nat.le_trans (Nat.le_of_eq hdepth.symm) (hwithin before List.prefix_rfl)
  cases h with
  | stopped h =>
    rw [hstep] at h
    cases h
    cases hc
    exact ⟨outer, here, before, rfl, rfl, hbefore, hdepth.trans (Nat.le_antisymm hle hd), hwithin⟩
  | refused h | divided h =>
    rw [hstep] at h
    cases h

theorem finish_lookups_prefix (ask : String → StateM σ Reply) (limit : Nat) (a : Moment σ) :
    a.lookups <+: (a.finish ask limit).1.lookups := List.prefix_append _ _

end Moment

theorem unread_step_paren (limit : Nat) (outer : List Pending) (here : Pending) (rest : List Char) :
    (step limit (.operand outer here ('(' :: rest))).unread = rest := by
  by_cases hd : outer.length < limit
  · rw [step_of_rule (.opened hd)]
    rfl
  · rw [step_of_rule (.tooDeep (Nat.le_of_not_lt hd))]
    rfl

end Machine

theorem unclosed_group (before : List Char) (inner : Tree .expression) :
    unclosed (before ++ (Tree.group inner).text) = unclosed before := by
  rw [unclosed_append, Tree.foldl_nest]

open Machine (Moment)

/-- **A limit on nesting only cuts off.**  Where at no place of what the evaluation under the higher limit has read more
than `m` parentheses are open, the lower limit `m` changes nothing.  Otherwise the evaluation under it ends with the
first parenthesis that is one too many, at a moment through which the other one goes.  A closed group does not count. -/
theorem evaluate_limit {σ : Type} {ask : String → StateM σ Reply} {m n : Nat} (hmn : m ≤ n) {s : Store}
    {expression : String} {memory : σ} {narrow wide : Evaluation × σ}
    (hnarrow : (evaluate ask m s expression).run memory = narrow)
    (hwide : (evaluate ask n s expression).run memory = wide) :
    (∃ read, read ++ wide.1.unread = (withoutWhiteSpace expression).toList ∧
      (NestedWithin m read → narrow = wide) ∧
      (¬ NestedWithin m read → ∃ before outer here, before ++ ['('] <+: read ∧ NestedWithin m before ∧
        unclosed before = m ∧ narrow.1.outcome = .error (.tooDeep m) ∧
        before ++ '(' :: narrow.1.unread = (withoutWhiteSpace expression).toList ∧
        ReflTransGen (Moment.Goes ask n) (.start (withoutWhiteSpace expression) s memory)
          ⟨.operand outer here ('(' :: narrow.1.unread), narrow.1.store, narrow.1.lookups, narrow.2⟩ ∧
        narrow.1.prompts <+: wide.1.prompts)) ∧
    ∀ before (inner : Tree .expression), unclosed (before ++ (Tree.group inner).text) = unclosed before := by
  refine ⟨?_, unclosed_group⟩
  obtain ⟨b, hreaches, hends⟩ := Moment.finish_eq_iff.1
    ((run_evaluateSource ask m s (withoutWhiteSpace expression) memory).symm.trans hnarrow)
  have hb : Machine.ReadWithin m (withoutWhiteSpace expression).toList b.config :=
    Moment.kept_of_reaches (P := fun a => Machine.ReadWithin m _ a.config) Moment.Goes.readWithin hreaches
      (.start m _)
  have hreaches := ReflTransGen.mono (fun _ _ h => Moment.Goes.of_le hmn h) _ _ hreaches
  have hfinish : b.finish ask n = wide := (Moment.finish_eq_of_reaches hreaches).symm.trans hwide
  -- all moments under `m` are moments under `n`, so only what comes after the last of them can differ
  by_cases hc : b.config.Exceeds m
  · obtain ⟨outer, here, before, rfl, houtcome, hsource, hbefore, hwithin⟩ := hends.of_exceeds hc hb
    have hlookups := Moment.finish_lookups_prefix ask n
      ⟨.operand outer here ('(' :: narrow.1.unread), narrow.1.store, narrow.1.lookups, narrow.2⟩
    have hsuffix := Moment.finish_unread_suffix ask n
      ⟨.operand outer here ('(' :: narrow.1.unread), narrow.1.store, narrow.1.lookups, narrow.2⟩
    rw [hfinish] at hlookups
    rw [hfinish, Machine.unread_step_paren] at hsuffix
    obtain ⟨more, hmore⟩ := hsuffix
    have hfirst : before ++ ['('] <+: before ++ '(' :: more := ⟨more, by rw [List.append_assoc]; rfl⟩
    refine ⟨before ++ '(' :: more, ?_, fun hall => ?_, fun _ => ?_⟩
    · rw [List.append_assoc, List.cons_append, hmore, hsource]
    · have hle := hall _ hfirst
      rw [unclosed_append, hbefore] at hle
      exact absurd hle (Nat.not_succ_le_self m)
    · exact ⟨before, outer, here, hfirst, hwithin, hbefore, houtcome, hsource, hreaches, hlookups.filterMap _⟩
  · have heq : narrow = wide := (hends.of_le hmn hc).finish_eq.symm.trans hfinish
    obtain ⟨read, hread, hwithin, -⟩ := hb.step hc (Machine.rule_step m b.config)
    rw [← hends.unread_eq, heq] at hread
    exact ⟨read, hread, fun _ => heq, fun hnot => absurd hwithin hnot⟩

/-- The second of two groups has a third one in it: the lower limit ends the evaluation there, after two prompts. -/
theorem evaluate_limit_third_group :
    let ask : String → StateM Nat Reply := fun _ => modifyGet fun asked => (.ok "2", asked + 1)
    let expression := "(x) * (y + (z)) - w"
    let narrow := (evaluate ask 1 .empty expression).run 0
    let wide := (evaluate ask 2 .empty expression).run 0
    (1 ≤ 2 ∧ narrow.1.outcome = .error (.tooDeep 1) ∧ narrow.1.prompts = ["x", "y"] ∧ narrow.2 = 2 ∧
      wide.1.outcome = .ok 6 ∧ wide.1.prompts = ["x", "y", "z", "w"]) ∧
    (∃ read, read ++ wide.1.unread = (withoutWhiteSpace expression).toList ∧
      (NestedWithin 1 read → narrow = wide) ∧
      (¬ NestedWithin 1 read → ∃ before outer here, before ++ ['('] <+: read ∧ NestedWithin 1 before ∧
        unclosed before = 1 ∧ narrow.1.outcome = .error (.tooDeep 1) ∧
        before ++ '(' :: narrow.1.unread = (withoutWhiteSpace expression).toList ∧
        ReflTransGen (Moment.Goes ask 2) (.start (withoutWhiteSpace expression) .empty 0)
          ⟨.operand outer here ('(' :: narrow.1.unread), narrow.1.store, narrow.1.lookups, narrow.2⟩ ∧
        narrow.1.prompts <+: wide.1.prompts)) ∧
    ∀ before (inner : Tree .expression), unclosed (before ++ (Tree.group inner).text) = unclosed before := by
  intro ask expression narrow wide
  have hmn : 1 ≤ 2 := by decide
  refine ⟨⟨hmn, ?_, ?_, ?_, ?_, ?_⟩, evaluate_limit hmn rfl rfl⟩ <;> decide +kernel

end Calculator
