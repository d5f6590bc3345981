import Calculator.Proofs.History
import Calculator.Proofs.Replay
/-!
# Proofs.Retry — after a refused reply, once more

An evaluation that ends because a reply is refused keeps the bindings of the prompts before.  Evaluated again on them,
its expression comes to the refused prompt without another one, and from there on it is as if it had never stopped: the
whole is one evaluation by someone who repeats the earlier replies and passes on every other name (`evaluate_retry`).
-/
namespace Calculator

open Relation (ReflTransGen)

/-- Someone who repeats the recorded replies, and passes on the names that have none. -/
def answering {m : Type → Type} [Monad m] (recorded : List Prompt) (ask : String → m Reply) (name : String) :
    m Reply :=
  match recorded.lookup name with
  | some reply => pure reply
  | none => ask name

theorem Prompt.lookup_of_mem {recorded : List Prompt} (h : (recorded.map Prod.fst).Nodup) {p : Prompt}
    (hp : p ∈ recorded) : recorded.lookup p.1 = some p.2 := by
  obtain ⟨before, after, rfl⟩ := List.append_of_mem hp
  rw [List.map_append] at h
  obtain ⟨-, -, hne⟩ := List.nodup_append.1 h
  refine List.lookup_eq_some_iff.2 ⟨before, after, rfl, fun q hq => bne_iff_ne.2 fun heq => ?_⟩
  exact hne q.1 (List.mem_map_of_mem hq) p.1 (List.mem_map_of_mem List.mem_cons_self) heq.symm

namespace Store

theorem exists_get?_absorb {s : Store} {prompts : List Prompt} (h : s.Admits prompts) {p : Prompt} (hp : p ∈ prompts)
    (ha : p.accepted = true) : ∃ value, (s.absorb prompts).get? p.1 = some value := by
  obtain ⟨before, after, rfl⟩ := List.append_of_mem hp
  obtain ⟨-, -, hafter⟩ := admits_append.1 h
  cases hv : p.value with
  | error fault =>
    rw [Prompt.accepted_of_error hv] at ha
    cases ha
  | ok value =>
    refine ⟨value, ?_⟩
    rw [store_settle_of_ok _ hv] at hafter
    rw [absorb_append, absorb_cons, store_settle_of_ok _ hv]
    exact le_absorb hafter p.1 value (get?_insert_self _ p.1 value)

theorem Resolves.accepted_of_ok {s : Store} {name : String} {found : Resolution} (h : s.Resolves name found)
    {value : Float} (hv : found.value = .ok value) {p : Prompt} (hp : p ∈ found.lookup.asked?) : p.accepted = true := by
  cases h with
  | known => cases hp
  | @accepted reply _ hs hr =>
    cases hp
    exact Prompt.accepted_of_ok hr
  | refused => cases hv

theorem lookup_settle (s : Store) (name : String) (reply : Reply) :
    (s.settle name reply).lookup = .asked name reply := by
  cases hr : Reply.value name reply with
  | error fault => rw [settle_of_error s hr]
  | ok value => rw [settle_of_ok s hr]

variable {σ τ : Type} {ask : String → StateM σ Reply} {s : Store} {name : String} {recorded : List Prompt}

theorem run_resolve_recorded {found : Resolution} {before after : σ}
    (hf : (s.resolve ask name).run before = (found, after))
    (hr : ∀ p ∈ found.lookup.asked?, recorded.lookup p.1 = some p.2) (again : String → StateM τ Reply) (memory : τ) :
    (s.resolve (answering recorded again) name).run memory = (found, memory) := by
  cases hs : s.get? name with
  | some value =>
    rw [run_resolve_known ask before hs] at hf
    cases hf
    exact run_resolve_known _ memory hs
  | none =>
    rw [run_resolve_asked ask before hs] at hf
    cases hf
    rw [lookup_settle] at hr
    rw [run_resolve_asked _ memory hs, answering, hr _ rfl]
    rfl

theorem resolve_answering (hs : ∀ p ∈ recorded, ∃ value, s.get? p.1 = some value) (again : String → StateM τ Reply)
    (name : String) :
    s.resolve (answering recorded again) name = s.resolve again name := by
  cases h : s.get? name with
  | some value => rw [resolve, resolve, h]
  | none =>
    have hl : recorded.lookup name = none :=
      List.lookup_eq_none_iff.2 fun p hp => bne_iff_ne.2 fun heq => by
        obtain ⟨value, hvalue⟩ := hs p hp
        rw [← heq, h] at hvalue
        cases hvalue
    rw [resolve, resolve, h, answering, hl]

end Store

/-! ## The refused prompt and what leads to it -/

namespace Machine
namespace Moment

variable {σ τ : Type} {ask : String → StateM σ Reply} {limit : Nat} {a b : Moment σ} {recorded : List Prompt}

/-- The prompts so far with their replies, in order. -/
def asked (a : Moment σ) : List Prompt := a.lookups.filterMap Lookup.asked?

def withMemory (memory : τ) (a : Moment σ) : Moment τ := ⟨a.config, a.store, a.lookups, memory⟩

theorem Goes.asked_subset (h : Goes ask limit a b) : ∀ p ∈ a.asked, p ∈ b.asked := by
  cases h with
  | moved => exact fun p hp => hp
  | resumed h hf hv hm =>
    intro p hp
    rw [asked, List.filterMap_append]
    exact List.mem_append_left _ hp

/-- **A step is taken again** by someone who has its reply on record. -/
theorem Goes.answering {again : String → StateM τ Reply} {memory : τ} (h : Goes ask limit a b)
    (hb : ∀ p ∈ b.asked, recorded.lookup p.1 = some p.2) :
    (∀ p ∈ a.asked, recorded.lookup p.1 = some p.2) ∧
      Goes (answering recorded again) limit (a.withMemory memory) (b.withMemory memory) := by
  refine ⟨fun p hp => hb p (h.asked_subset p hp), ?_⟩
  cases h with
  | moved h => exact .moved h
  | @resumed c s lookups _ _ name outer here unread found value product h hf hv hm =>
    have hr : ∀ p ∈ found.lookup.asked?, recorded.lookup p.1 = some p.2 := fun p hp =>
      hb p (List.mem_filterMap.2 ⟨found.lookup, List.mem_append_right _ List.mem_cons_self, hp⟩)
    exact .resumed h (Store.run_resolve_recorded hf hr again memory) hv hm

/-- Before the last step no reply has been refused. -/
theorem Goes.accepted (h : Goes ask limit a b) (ha : ∀ p ∈ a.asked, p.accepted = true) :
    ∀ p ∈ b.asked, p.accepted = true := by
  cases h with
  | moved => exact ha
  | @resumed c s lookups _ _ name outer here unread found value product h hf hv hm =>
    intro p hp
    rw [asked, List.filterMap_append] at hp
    rcases List.mem_append.1 hp with hp | hp
    · exact ha p hp
    · obtain ⟨l, hl, hp⟩ := List.mem_filterMap.1 hp
      rw [List.mem_singleton.1 hl] at hp
      exact (Store.resolves_of_run hf).accepted_of_ok hv hp

/-- What a refused reply comes to: the name is the next operand, and everything stays as it is. -/
theorem Ends.of_refused {r : Evaluation × σ} (h : Ends ask limit a r) (ha : ∀ p ∈ a.asked, p.accepted = true)
    {p : Prompt} (hp : p ∈ r.1.asked) (hrefused : p.accepted = false) :
    ∃ outer here unread, step limit a.config = .lookup p.1 outer here unread ∧ a.store.get? p.1 = none ∧
      r.1.store = a.store ∧ r.1.asked = a.asked ++ [p] := by
  have hlast : p ∉ a.asked := fun hmem => by rw [ha p hmem] at hrefused; cases hrefused
  cases h with
  | stopped h => exact absurd hp hlast
  | @refused c s lookups _ _ name outer here unread found fault h hf hv =>
    obtain ⟨reply, hs, -, rfl⟩ := (Store.resolves_of_run hf).of_error hv
    have hasked : Evaluation.asked ⟨.error fault, s, lookups ++ [.asked name reply], unread⟩ =
        lookups.filterMap Lookup.asked? ++ [(name, reply)] := List.filterMap_append
    rw [hasked] at hp
    rcases List.mem_append.1 hp with hp | hp
    · exact absurd hp hlast
    · cases List.mem_singleton.1 hp
      exact ⟨outer, here, unread, h, hs, rfl, hasked⟩
  | @divided c s lookups _ _ name outer here unread found value fault h hf hv hm =>
    unfold Evaluation.asked at hp
    rw [List.filterMap_append] at hp
    rcases List.mem_append.1 hp with hp | hp
    · exact absurd hp hlast
    · obtain ⟨l, hl, hp⟩ := List.mem_filterMap.1 hp
      rw [List.mem_singleton.1 hl] at hp
      rw [(Store.resolves_of_run hf).accepted_of_ok hv hp] at hrefused
      cases hrefused

end Moment

/-- Where the reading comes to an unbound name, this name is asked for first. -/
theorem head?_prompts {σ : Type} (ask : String → StateM σ Reply) {limit : Nat} {c : Config} {name : String}
    {outer : List Pending} {here : Pending} {unread : List Char} (h : step limit c = .lookup name outer here unread)
    {s : Store} (hs : s.get? name = none) (memory : σ) :
    ((dialogue limit c).run ask s |>.run memory).1.prompts.head? = some name := by
  have hf := Store.run_resolve_asked ask memory hs
  rw [dialogue_of_lookup h]
  generalize ((ask name).run memory).1 = reply at hf
  cases hv : Reply.value name reply with
  | error fault =>
    rw [Store.settle_of_error s hv] at hf
    rw [Dialogue.run_of_error hf rfl]
    rfl
  | ok value =>
    rw [Store.settle_of_ok s hv] at hf
    rw [Dialogue.run_of_ok hf rfl]
    rfl

end Machine

theorem Dialogue.run_answering {τ : Type} {recorded : List Prompt} (again : String → StateM τ Reply) (d : Dialogue)
    {s : Store} (hs : ∀ p ∈ recorded, ∃ value, s.get? p.1 = some value) (memory : τ) :
    (d.run (answering recorded again) s).run memory = (d.run again s).run memory := by
  induction d generalizing s memory with
  | done outcome unread => rfl
  | lookup name unread proceed ih =>
    rcases hf : (s.resolve again name).run memory with ⟨found, memory'⟩
    have hf' := hf
    rw [← Store.resolve_answering hs] at hf'
    cases hv : found.value with
    | error fault => rw [run_of_error hf' hv, run_of_error hf hv]
    | ok value =>
      have hfound : ∀ p ∈ recorded, ∃ value, found.store.get? p.1 = some value := fun p hp =>
        (hs p hp).imp fun bound => (Store.resolves_of_run hf).le p.1 bound
      rw [run_of_ok hf' hv, run_of_ok hf hv, ih value hfound memory']

/-- Of an evaluation that ended with a refused prompt, the replies before are a record for all names they bind. -/
theorem Evaluation.Exchange.record {s : Store} {e : Evaluation} (h : e.Exchange s) {earlier : List Prompt} {p : Prompt}
    (hasked : e.asked = earlier ++ [p]) (hearlier : ∀ q ∈ earlier, q.accepted = true) (hrefused : p.accepted = false) :
    e.asked.filter Prompt.accepted = earlier ∧ (∀ q ∈ earlier, earlier.lookup q.1 = some q.2) ∧
      ∀ q ∈ earlier, ∃ value, e.store.get? q.1 = some value := by
  have hadmits := h.admits
  rw [hasked, Store.admits_append] at hadmits
  have hnodup : (earlier.map Prod.fst).Nodup :=
    Store.nodup_of_admits hadmits.1 fun before q after hq hfalse => by
      rw [hearlier q (hq ▸ List.mem_append_right _ List.mem_cons_self)] at hfalse
      cases hfalse
  refine ⟨?_, fun q hq => Prompt.lookup_of_mem hnodup hq, fun q hq => ?_⟩
  · have hp : ¬ p.accepted = true := by rw [hrefused]; decide
    rw [hasked, List.filter_append, List.filter_eq_self.2 hearlier, List.filter_cons, if_neg hp, List.filter_nil,
      List.append_nil]
  · rw [h.store_eq]
    exact Store.exists_get?_absorb h.admits (hasked ▸ List.mem_append_left [p] hq) (hearlier q hq)

section

variable {σ τ : Type} {ask : String → StateM σ Reply} {limit : Nat} {s : Store} {source : String} {memory : σ}
  {failed : Evaluation} {p : Prompt}

open Machine (Moment)

/-- **What a refused reply interrupts goes on where it stopped.**  The retry and the evaluation by someone who repeats
the earlier replies end with one and the same evaluation of what had not been read. -/
theorem evaluateSource_retry (hfailed : ((evaluateSource ask limit s source).run memory).1 = failed)
    (hp : p ∈ failed.asked) (hrefused : p.accepted = false) (again : String → StateM τ Reply) (memory' : τ) :
    ∃ (earlier : List Lookup) (rest : Evaluation) (after : τ),
      earlier.filterMap Lookup.asked? = failed.asked.filter Prompt.accepted ∧ rest.prompts.head? = some p.1 ∧
      (evaluateSource again limit failed.store source).run memory' =
        ({ rest with lookups := earlier.map Lookup.recalled ++ rest.lookups }, after) ∧
      (evaluateSource (answering (failed.asked.filter Prompt.accepted) again) limit s source).run memory' =
        ({ rest with lookups := earlier ++ rest.lookups }, after) := by
  have hx : failed.Exchange s := hfailed ▸ (Dialogue.yields_run ask (dialogueOf limit source) s memory).exchange
  obtain ⟨b, hreaches, hends⟩ := Moment.finish_eq_iff.1 (run_evaluateSource ask limit s source memory).symm
  have hearlier : ∀ p ∈ b.asked, p.accepted = true :=
    Moment.kept_of_reaches (P := fun a => ∀ p ∈ a.asked, p.accepted = true) Moment.Goes.accepted hreaches
      fun p hp => nomatch hp
  obtain ⟨outer, here, unread, hstep, hunbound, hstore, hasked⟩ := hends.of_refused hearlier (hfailed ▸ hp) hrefused
  rw [hfailed] at hstore hasked
  obtain ⟨hrecord, hlookup, hbound⟩ := hx.record hasked hearlier hrefused
  rw [hstore] at hbound
  rw [hrecord, hstore]
  rcases hrun : ((Machine.dialogue limit b.config).run again b.store).run memory' with ⟨rest, after⟩
  -- the retry comes to the moment `b` again by finding its names, and the other evaluation by repeating its replies
  refine ⟨b.lookups, rest, after, rfl, ?_, ?_, ?_⟩
  · have hhead := Machine.head?_prompts again hstep hunbound memory'
    rw [hrun] at hhead
    exact hhead
  · have hagain : ReflTransGen (Moment.Goes again limit) (.start source b.store memory') (b.recalled b.store memory') :=
      Moment.reaches_recalled hreaches (Store.le_refl b.store)
    rw [run_evaluateSource, Moment.finish_eq_of_reaches hagain, Moment.finish]
    simp only [Moment.recalled, hrun]
  · have hagain : ReflTransGen (Moment.Goes (answering b.asked again) limit) (.start source s memory')
        (b.withMemory memory') :=
      (Moment.reaches_map (f := Moment.withMemory memory') (P := fun a => ∀ q ∈ a.asked, b.asked.lookup q.1 = some q.2)
        Moment.Goes.answering hreaches hlookup).2
    rw [run_evaluateSource, Moment.finish_eq_of_reaches hagain, Moment.finish]
    simp only [Moment.withMemory, Dialogue.run_answering again _ hbound, hrun]

/-- **A refused reply only interrupts.**  The retry asks for the refused name first, and for no name whose reply was
accepted; its outcome and store are those of one evaluation, from the first store, that gets the accepted replies and
everything else from the one who is asked in the retry. -/
theorem evaluate_retry {expression : String} (hfailed : ((evaluate ask limit s expression).run memory).1 = failed)
    (hp : p ∈ failed.asked) (hrefused : p.accepted = false) (again : String → StateM τ Reply) (memory' : τ) :
    ∃ (retried whole : Evaluation) (after : τ),
      (evaluate again limit failed.store expression).run memory' = (retried, after) ∧
      (evaluate (answering (failed.asked.filter Prompt.accepted) again) limit s expression).run memory' =
        (whole, after) ∧
      retried.prompts.head? = some p.1 ∧ (∀ q ∈ failed.asked, q.accepted = true → q.1 ∉ retried.prompts) ∧
      whole.outcome = retried.outcome ∧ whole.store = retried.store ∧ whole.unread = retried.unread ∧
      whole.asked = failed.asked.filter Prompt.accepted ++ retried.asked := by
  obtain ⟨earlier, rest, after, hearlier, hhead, hretried, hwhole⟩ :=
    evaluateSource_retry hfailed hp hrefused again memory'
  have hasked : Evaluation.asked { rest with lookups := earlier.map Lookup.recalled ++ rest.lookups } = rest.asked := by
    rw [Evaluation.asked, List.filterMap_append, Lookup.asked_recalled, List.nil_append, Evaluation.asked]
  refine ⟨_, _, after, hretried, hwhole, ?_, fun q hq haccepted hmem => ?_, rfl, rfl, rfl, ?_⟩
  · rw [Evaluation.prompts_eq, hasked, ← Evaluation.prompts_eq, hhead]
  · -- the name is bound by now, and no bound name is asked for
    have hx : failed.Exchange s := hfailed ▸ exchange_evaluate ask limit s expression memory
    obtain ⟨value, hvalue⟩ := Store.exists_get?_absorb hx.admits hq haccepted
    rw [← hx.store_eq] at hvalue
    have hadmits := (exchange_evaluate again limit failed.store expression memory').admits
    rw [show (evaluate again limit failed.store expression).run memory' = _ from hretried] at hadmits
    rw [Evaluation.prompts_eq] at hmem
    obtain ⟨q', hq', hname⟩ := List.mem_map.1 hmem
    exact Store.ne_of_admits hadmits hvalue q' hq' hname
  · rw [hasked, ← hearlier, Evaluation.asked, List.filterMap_append, Evaluation.asked]

/-- A group is given up at the second name, and taken up there; the first name is not asked for again. -/
theorem evaluate_retry_group :
    let script : String → StateM (List Reply) Reply := fun _ => modifyGet fun left => (left.headD (.ok ""), left.tail)
    let failed := ((evaluate script 1 .empty "a * (b + a) - c").run [.ok "2", .ok "two"]).1
    let replies : List Reply := [.ok "3", .ok "4"]
    (failed.asked = [("a", .ok "2"), ("b", .ok "two")] ∧ ("b", .ok "two") ∈ failed.asked ∧
      Prompt.accepted ("b", .ok "two") = false) ∧
    ∃ (retried whole : Evaluation) (after : List Reply),
      (evaluate script 1 failed.store "a * (b + a) - c").run replies = (retried, after) ∧
      (evaluate (answering (failed.asked.filter Prompt.accepted) script) 1 .empty "a * (b + a) - c").run replies =
        (whole, after) ∧
      retried.prompts.head? = some "b" ∧ (∀ q ∈ failed.asked, q.accepted = true → q.1 ∉ retried.prompts) ∧
      whole.outcome = retried.outcome ∧ whole.store = retried.store ∧ whole.unread = retried.unread ∧
      whole.asked = failed.asked.filter Prompt.accepted ++ retried.asked := by
  intro script failed replies
  have hasked : failed.asked = [("a", .ok "2"), ("b", .ok "two")] := by decide +kernel
  have hp : ("b", .ok "two") ∈ failed.asked := by rw [hasked]; exact List.mem_cons_of_mem _ List.mem_cons_self
  have hrefused : Prompt.accepted ("b", .ok "two") = false := by decide +kernel
  exact ⟨⟨hasked, hp, hrefused⟩, evaluate_retry rfl hp hrefused script replies⟩

end

end Calculator
