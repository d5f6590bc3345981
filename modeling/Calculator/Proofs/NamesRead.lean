import Calculator.Proofs.History
import Calculator.Proofs.Moment
/-!
# Proofs.NamesRead — what is asked for stands in the text

Which names a text holds can be seen without evaluating it: they are the longest stretches of letters and digits that
begin with a letter (`namesIn`).  Step by step an evaluation looks up just the names in what it reads
(`Machine.Rule.reads_names`), each of them as often as it stands there, and asks for those that are unbound when they
come for the first time.  So its prompts are read off the text, and the replies to them make the bindings
(`evaluate_prompts`).
-/
namespace Calculator

open Relation (ReflTransGen)

/-! ## The names in a text -/

/-- The names in a text, in order.  Everything that cannot go on with a name divides the text, and of the pieces between
those are names that begin like one. -/
def namesIn (text : List Char) : List String :=
  ((text.splitOnP fun c => !Lexeme.name.continues c).filter Lexeme.name.covers).map String.ofList

theorem namesIn_append_cons (read rest : List Char) {c : Char} (hc : Lexeme.name.continues c = false) :
    namesIn (read ++ c :: rest) = namesIn read ++ namesIn rest := by
  have hsplit := @List.splitOnP_append_cons _ (fun c => !Lexeme.name.continues c) read rest c
    (by simp only [hc, Bool.not_false])
  unfold namesIn
  rw [hsplit, List.filter_append, List.map_append]

theorem namesIn_nil : namesIn [] = [] := by
  unfold namesIn
  rw [List.splitOnP_nil]
  rfl

theorem namesIn_of_covers {span : List Char} (hs : Lexeme.name.covers span = true) :
    namesIn span = [String.ofList span] := by
  have hall : ∀ c ∈ span, (!Lexeme.name.continues c) = false := by
    obtain ⟨c, rest, rfl, hc, hrest⟩ := Lexeme.covers_iff.1 hs
    intro d hd
    rcases List.mem_cons.1 hd with rfl | hd
    · have hd : Character.isAlphabetic d = true := hc
      simp [Lexeme.continues, hd]
    · rw [hrest d hd]
      rfl
  unfold namesIn
  rw [List.splitOnP_eq_singleton hall, List.filter_cons, if_pos hs]
  rfl

theorem mem_of_mem_splitOnP {α : Type} {p : α → Bool} : ∀ {l piece : List α}, piece ∈ l.splitOnP p → ∀ a ∈ piece, a ∈ l
  | [], piece, h => by
    rw [List.splitOnP_nil, List.mem_singleton] at h
    exact fun a ha => h ▸ ha
  | b :: l, piece, h => by
    have ih : ∀ {piece}, piece ∈ l.splitOnP p → ∀ a ∈ piece, a ∈ l := mem_of_mem_splitOnP
    rw [List.splitOnP_cons_eq_if_modifyHead] at h
    intro a ha
    by_cases hb : p b = true
    · rw [if_pos hb] at h
      rcases List.mem_cons.1 h with rfl | h
      · cases ha
      · exact List.mem_cons_of_mem b (ih h a ha)
    · rw [if_neg hb] at h
      rcases hl : l.splitOnP p with _ | ⟨first, rest⟩
      · exact absurd hl (List.splitOnP_ne_nil p l)
      · rw [hl] at h ih
        rcases List.mem_cons.1 h with rfl | h
        · rcases List.mem_cons.1 ha with rfl | ha
          · exact List.mem_cons_self
          · exact List.mem_cons_of_mem b (ih List.mem_cons_self a ha)
        · exact List.mem_cons_of_mem b (ih (List.mem_cons_of_mem first h) a ha)

/-- Where nothing is alphabetic there are no names. -/
theorem namesIn_eq_nil {text : List Char} (h : ∀ c ∈ text, Character.isAlphabetic c = false) : namesIn text = [] := by
  unfold namesIn
  rw [List.map_eq_nil_iff, List.filter_eq_nil_iff]
  intro piece hpiece hcovers
  obtain ⟨c, rest, rfl, hc, -⟩ := Lexeme.covers_iff.1 hcovers
  have hnot := h c (mem_of_mem_splitOnP hpiece c List.mem_cons_self)
  rw [show Character.isAlphabetic c = true from hc] at hnot
  cases hnot

theorem namesIn_of_number {span : List Char} (hs : Lexeme.number.covers span = true) : namesIn span = [] := by
  obtain ⟨c, rest, rfl, hc, hrest⟩ := Lexeme.covers_iff.1 hs
  refine namesIn_eq_nil fun d hd => ?_
  rcases List.mem_cons.1 hd with rfl | hd
  · exact Lexeme.not_name_of_number hc
  · have hd := hrest d hd
    simp only [Lexeme.continues, Bool.or_eq_true, beq_iff_eq] at hd
    rcases hd with hd | rfl
    · exact Lexeme.not_name_of_number (by simp [Lexeme.starts, hd])
    · decide

/-- Whether a text ends where no name could go on. -/
def Separated (read : List Char) : Prop := ∀ c ∈ read.getLast?, Lexeme.name.continues c = false

theorem Separated.nil : Separated [] := fun _ hc => nomatch hc

theorem Separated.append_singleton (read : List Char) {c : Char} (hc : Lexeme.name.continues c = false) :
    Separated (read ++ [c]) := by
  intro d hd
  rw [List.getLast?_concat] at hd
  cases hd
  exact hc

theorem Separated.namesIn_append {read : List Char} (h : Separated read) (text : List Char) :
    namesIn (read ++ text) = namesIn read ++ namesIn text := by
  rcases List.eq_nil_or_concat read with rfl | ⟨before, c, rfl⟩
  · rw [List.nil_append, namesIn_nil, List.nil_append]
  · have hc : Lexeme.name.continues c = false := h c (by rw [List.concat_eq_append, List.getLast?_concat]; rfl)
    rw [List.concat_eq_append, List.append_assoc, List.singleton_append, namesIn_append_cons _ _ hc,
      namesIn_append_cons _ _ hc, namesIn_nil, List.append_nil]

/-! ## What a step reads and looks up -/

namespace Machine

def Step.names : Step → List String
  | stop _ _ => []
  | move _ => []
  | lookup name _ _ _ => [name]

/-- Whether a configuration can come after a text.  Before an operand no name is being read. -/
def Config.CanFollow (read : List Char) : Config → Prop
  | operand _ _ _ => Separated read
  | operator _ _ _ _ => True

/-- **A step looks up the names in what it reads.** -/
theorem Rule.reads_names {limit : Nat} {c : Config} {s : Step} (h : Rule limit c s) {read : List Char}
    (hr : c.CanFollow read) :
    ∃ taken, c.unread = taken ++ s.unread ∧ namesIn (read ++ taken) = namesIn read ++ s.names ∧
      ∀ next, s = .move next → next.CanFollow (read ++ taken) := by
  -- a sign or an open parenthesis is read alone, and divides names
  have hsign : ∀ c : Char, Lexeme.name.continues c = false →
      namesIn (read ++ [c]) = namesIn read ++ [] := fun c hc => by
    rw [namesIn_append_cons read [] hc, namesIn_nil]
  cases h with
  | number hs | badNumber hs | divided hs =>
    refine ⟨_, rfl, ?_, fun next h => by cases h; try trivial⟩
    rw [Separated.namesIn_append hr, namesIn_of_number hs]
    rfl
  | name hs =>
    refine ⟨_, rfl, ?_, fun next h => nomatch h⟩
    rw [Separated.namesIn_append hr, namesIn_of_covers hs]
    rfl
  | tooDeep => exact ⟨['('], rfl, hsign _ (by decide), fun next h => nomatch h⟩
  | opened =>
    refine ⟨['('], rfl, hsign _ (by decide), fun next h => ?_⟩
    cases h
    exact Separated.append_singleton read (by decide)
  | times op | plus op =>
    have hc := Lexeme.not_continues_of_mem_signs .name op.symbol op.symbol_mem_signs
    refine ⟨[op.symbol], rfl, hsign _ hc, fun next h => ?_⟩
    cases h
    exact Separated.append_singleton read hc
  | groupDivided => exact ⟨[')'], rfl, hsign _ (by decide), fun next h => nomatch h⟩
  | closed =>
    refine ⟨[')'], rfl, hsign _ (by decide), fun next h => ?_⟩
    cases h
    trivial
  | ended | strange | finished | unclosed | unopened | unknown | unmatched =>
    refine ⟨[], rfl, ?_, fun next h => nomatch h⟩
    rw [List.append_nil]
    exact (List.append_nil _).symm

namespace Moment

variable {σ : Type} {ask : String → StateM σ Reply} {limit : Nat} {source : List Char} {a b : Moment σ}
  {r : Evaluation × σ}

/-- A moment before which just the names in what has been read were looked up. -/
def Scanned (source : List Char) (a : Moment σ) : Prop :=
  ∃ read, read ++ a.config.unread = source ∧ namesIn read = a.lookups.map Lookup.name ∧ a.config.CanFollow read

theorem Scanned.start (source : String) (s : Store) (memory : σ) :
    (Moment.start source s memory).Scanned source.toList :=
  ⟨[], rfl, namesIn_nil, .nil⟩

theorem Scanned.step (limit : Nat) (h : a.Scanned source) :
    ∃ read, read ++ (Machine.step limit a.config).unread = source ∧
      namesIn read = a.lookups.map Lookup.name ++ (Machine.step limit a.config).names ∧
      ∀ next, Machine.step limit a.config = .move next → next.CanFollow read := by
  obtain ⟨read, hread, hnames, hfollow⟩ := h
  obtain ⟨taken, htaken, hmore, hnext⟩ := (rule_step limit a.config).reads_names hfollow
  refine ⟨read ++ taken, ?_, hnames ▸ hmore, hnext⟩
  rw [List.append_assoc, ← htaken, hread]

theorem map_name_concat {s : Store} {name : String} {found : Resolution} {before after : σ}
    (hf : (s.resolve ask name).run before = (found, after)) (lookups : List Lookup) :
    (lookups ++ [found.lookup]).map Lookup.name = lookups.map Lookup.name ++ [name] := by
  rw [List.map_append, List.map_singleton, (Store.resolves_of_run hf).name_lookup]

theorem Goes.scanned (h : Goes ask limit a b) (ha : a.Scanned source) : b.Scanned source := by
  obtain ⟨read, hread, hnames, hnext⟩ := ha.step limit
  cases h with
  | moved h =>
    rw [h] at hread hnames
    exact ⟨read, hread, hnames.trans (List.append_nil _), hnext _ h⟩
  | resumed h hf hv hm =>
    rw [h] at hread hnames
    exact ⟨read, hread, hnames.trans (map_name_concat hf _).symm, trivial⟩

theorem Ends.scanned (h : Ends ask limit a r) (ha : a.Scanned source) :
    ∃ read, read ++ r.1.unread = source ∧ namesIn read = r.1.lookups.map Lookup.name := by
  obtain ⟨read, hread, hnames, -⟩ := ha.step limit
  cases h with
  | stopped h =>
    rw [h] at hread hnames
    exact ⟨read, hread, hnames.trans (List.append_nil _)⟩
  | refused h hf | divided h hf =>
    rw [h] at hread hnames
    exact ⟨read, hread, hnames.trans (map_name_concat hf _).symm⟩

/-- An evaluation that succeeds has read everything. -/
theorem Ends.unread_eq_nil (h : Ends ask limit a r) {value : Float} (hv : r.1.outcome = .ok value) :
    r.1.unread = [] := by
  cases h with
  | stopped h =>
    cases hv
    cases rule_iff.2 h
    rfl
  | refused | divided => cases hv

end Moment
end Machine

/-! ## Which of them are asked for -/

theorem eraseDups_filter {α : Type} [BEq α] [LawfulBEq α] (p : α → Bool) :
    ∀ l : List α, (l.filter p).eraseDups = l.eraseDups.filter p
  | [] => rfl
  | a :: l => by
    have ih := eraseDups_filter p (l.filter fun b => !b == a)
    rw [List.filter_filter] at ih
    rw [List.eraseDups_cons, List.filter_cons, List.filter_cons]
    by_cases hp : p a = true
    · rw [if_pos hp, if_pos hp, List.eraseDups_cons, ← ih, List.filter_filter]
      simp only [Bool.and_comm]
    · rw [if_neg hp, if_neg hp, ← ih]
      -- what is not `p` is not `a` either, so that it need not be filtered out
      congr 1
      refine List.filter_congr fun b _ => ?_
      by_cases hb : b = a
      · simp [hb, hp]
      · simp [hb]
termination_by l => l.length
decreasing_by
  have := List.length_filter_le (fun b => !b == a) l
  simp only [List.length_cons]
  omega

theorem Store.contains_eq_false {s : Store} {name : String} (h : s.get? name = none) : s.contains name = false := by
  rw [contains, h]
  rfl

theorem Store.contains_insert (s : Store) (name other : String) (value : Float) :
    (s.insert name value).contains other = (other == name || s.contains other) := by
  unfold contains
  rw [get?_insert]
  by_cases h : other = name
  · rw [if_pos h]
    simp [h]
  · rw [if_neg h]
    simp [h]

/-- **The prompts are the names that are looked up**, each once and where it comes first, less those that are bound. -/
theorem Dialogue.Yields.prompts_eq {d : Dialogue} {s : Store} {e : Evaluation} (h : d.Yields s e) :
    e.prompts = (e.lookups.map Lookup.name).eraseDups.filter fun name => !s.contains name := by
  induction h with
  | done => rfl
  | @stopped name unread proceed s found fault hf hv =>
    obtain ⟨reply, hs, -, rfl⟩ := hf.of_error hv
    have hfree := Store.contains_eq_false hs
    simp [Evaluation.prompts, Lookup.prompt?, Lookup.name, List.eraseDups_cons, hfree]
  | @continued name unread proceed s found value e hf hv he ih =>
    have hcons : (found.lookup :: e.lookups).map Lookup.name = name :: e.lookups.map Lookup.name := by
      rw [List.map_cons, hf.name_lookup]
    rw [hcons, List.eraseDups_cons, eraseDups_filter, List.filter_cons, List.filter_filter]
    cases hf with
    | known hs =>
      have hbound : s.contains name = true := by rw [Store.contains, hs]; rfl
      rw [if_neg (by rw [hbound]; decide)]
      refine ih.trans (List.filter_congr fun other _ => ?_)
      by_cases ho : other = name
      · simp [ho, hbound]
      · simp [ho]
    | @accepted reply _ hs hr =>
      rw [if_pos (by rw [Store.contains_eq_false hs]; rfl)]
      refine congrArg (name :: ·) (ih.trans (List.filter_congr fun other _ => ?_))
      simp only [Store.contains_insert, Bool.not_or, Bool.and_comm]
    | refused => cases hv

theorem Prompt.exists_mem_cons {name : String} {value : Float} {p : Prompt} {rest : List Prompt} :
    (∃ reply, (name, reply) ∈ p :: rest ∧ Reply.value name reply = .ok value) ↔
      name = p.1 ∧ p.value = .ok value ∨ ∃ reply, (name, reply) ∈ rest ∧ Reply.value name reply = .ok value := by
  constructor
  · rintro ⟨reply, hmem, hreply⟩
    rcases List.mem_cons.1 hmem with rfl | hmem
    · exact .inl ⟨rfl, hreply⟩
    · exact .inr ⟨reply, hmem, hreply⟩
  · rintro (⟨rfl, hvalue⟩ | ⟨reply, hmem, hreply⟩)
    · exact ⟨p.2, List.mem_cons_self, hvalue⟩
    · exact ⟨reply, List.mem_cons_of_mem p hmem, hreply⟩

/-- What the replies bind comes to what was bound before. -/
theorem Store.get?_absorb_iff_mem {name : String} {value : Float} : ∀ {s : Store} {prompts : List Prompt},
    s.Admits prompts →
      ((s.absorb prompts).get? name = some value ↔
        s.get? name = some value ∨ ∃ reply, (name, reply) ∈ prompts ∧ Reply.value name reply = .ok value)
  | s, [], _ => ⟨.inl, fun h => h.resolve_right fun ⟨_, hmem, _⟩ => nomatch hmem⟩
  | s, p :: rest, ⟨hp, hrest⟩ => by
    rw [absorb_cons, get?_absorb_iff_mem hrest, Prompt.exists_mem_cons]
    cases hv : p.value with
    | error fault =>
      rw [store_settle_of_error s hv]
      simp
    | ok bound =>
      rw [store_settle_of_ok s hv, get?_insert]
      by_cases hn : name = p.1
      · simp [hn, hp]
      · simp [hn]

open Machine (Moment)

section

variable {σ : Type} {ask : String → StateM σ Reply} {limit : Nat} {s : Store} {memory : σ} {r : Evaluation × σ}

theorem evaluateSource_namesIn {source : String} (hr : (evaluateSource ask limit s source).run memory = r) :
    ∃ read, read ++ r.1.unread = source.toList ∧ namesIn read = r.1.lookups.map Lookup.name ∧
      ∀ value, r.1.outcome = .ok value → r.1.unread = [] := by
  obtain ⟨b, hreaches, hends⟩ := Moment.finish_eq_iff.1
    ((run_evaluateSource ask limit s source memory).symm.trans hr)
  have hb : b.Scanned source.toList :=
    Moment.kept_of_reaches Moment.Goes.scanned hreaches (Moment.Scanned.start source s memory)
  obtain ⟨read, hread, hnames⟩ := hends.scanned hb
  exact ⟨read, hread, hnames, fun value hv => hends.unread_eq_nil hv⟩

/-- **The prompts are read off the text.**  An evaluation asks, once each and in order, for the names that stand in what
it has read and are not bound; a success has read everything.  The replies that write numbers are bound to their names,
beside what was bound before, and only the last reply can be another one, which then ends the evaluation. -/
theorem evaluate_prompts {expression : String} (hr : (evaluate ask limit s expression).run memory = r) :
    ∃ read, read ++ r.1.unread = (withoutWhiteSpace expression).toList ∧
      (∀ value, r.1.outcome = .ok value → r.1.unread = []) ∧
      r.1.prompts = ((namesIn read).eraseDups.filter fun name => !s.contains name) ∧
      r.1.asked.map Prod.fst = r.1.prompts ∧ (r.1.prompts.mapM ask).run memory = (r.1.asked.map Prod.snd, r.2) ∧
      (∀ name value, r.1.store.get? name = some value ↔
        s.get? name = some value ∨ ∃ text, (name, .ok text) ∈ r.1.asked ∧ Number.read text = .ok value) ∧
      ∀ before p after fault, r.1.asked = before ++ p :: after → Reply.value p.1 p.2 = .error fault →
        after = [] ∧ r.1.outcome = .error fault := by
  obtain ⟨read, hread, hnames, hend⟩ := evaluateSource_namesIn hr
  have hyields := Dialogue.yields_run ask (dialogueOf limit (withoutWhiteSpace expression)) s memory
  have hrun := Dialogue.run_prompts ask (dialogueOf limit (withoutWhiteSpace expression)) s memory
  rw [show ((dialogueOf limit (withoutWhiteSpace expression)).run ask s).run memory = r from hr] at hyields hrun
  have hx := hyields.exchange
  refine ⟨read, hread, hend, hnames ▸ hyields.prompts_eq, r.1.prompts_eq.symm, hrun, fun name value => ?_, hx.refused⟩
  rw [hx.store_eq, Store.get?_absorb_iff_mem hx.admits]
  refine or_congr_right ⟨?_, fun ⟨text, hmem, hv⟩ => ⟨.ok text, hmem, hv⟩⟩
  rintro ⟨reply, hmem, hv⟩
  cases reply with
  | error details => cases hv
  | ok text => exact ⟨text, hmem, hv⟩

/-- A name that another one begins with, a digit of another script, and a refused reply before the last name. -/
theorem evaluate_prompts_refused :
    let script : String → StateM (List Reply) Reply := fun _ => modifyGet fun left => (left.headD (.ok ""), left.tail)
    let s := Store.empty.insert "rate" 2
    let r := (evaluate script 4 s "a12 * (rate + a1) - a12 / x٣ * 1.5 + y").run [.ok "3", .ok " 4", .ok "five", .ok "6"]
    (r.1.prompts = ["a12", "a1", "x٣"] ∧ r.1.unread = "*1.5+y".toList ∧ r.2 = [.ok "6"]) ∧
    ∃ read, read ++ r.1.unread = (withoutWhiteSpace "a12 * (rate + a1) - a12 / x٣ * 1.5 + y").toList ∧
      (∀ value, r.1.outcome = .ok value → r.1.unread = []) ∧
      r.1.prompts = ((namesIn read).eraseDups.filter fun name => !s.contains name) ∧
      r.1.asked.map Prod.fst = r.1.prompts ∧
      (r.1.prompts.mapM script).run [.ok "3", .ok " 4", .ok "five", .ok "6"] = (r.1.asked.map Prod.snd, r.2) ∧
      (∀ name value, r.1.store.get? name = some value ↔
        s.get? name = some value ∨ ∃ text, (name, .ok text) ∈ r.1.asked ∧ Number.read text = .ok value) ∧
      ∀ before p after fault, r.1.asked = before ++ p :: after → Reply.value p.1 p.2 = .error fault →
        after = [] ∧ r.1.outcome = .error fault := by
  intro script s r
  exact ⟨by decide +kernel, evaluate_prompts rfl⟩

end

end Calculator
