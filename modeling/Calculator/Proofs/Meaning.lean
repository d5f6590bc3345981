import Calculator.Evaluation
import Calculator.Proofs.Mirror
/-!
# Proofs.Meaning — the value of an expression is the value of its tree

The machine keeps no trees.  What it does on the text of a tree, up to the end of this text, is what the tree does as
a dialogue (`Tree.dialogue`), whatever follows; and carrying this dialogue out is evaluating the tree.  Conversely, a
text with a value has been read as a tree (`evaluateSource_grammar`).
-/
namespace Calculator

/-- What comes after a value that may be a fault, which ends it all before the text `unread`. -/
def Dialogue.after (unread : List Char) (k : Float → Dialogue) : Except Fault Float → Dialogue
  | .error fault => .done (.error fault) unread
  | .ok value => k value

/-- A tree as a dialogue, where `rest` follows in the text and `k` is what its value is used for. -/
def Tree.dialogue : {level : Level} → Tree level → (rest : List Char) → (k : Float → Dialogue) → Dialogue
  | _, number span _, rest, k => .after rest k (Number.read (String.ofList span))
  | _, name span _, rest, k => .lookup (String.ofList span) rest k
  | _, group inner, rest, k => inner.dialogue (')' :: rest) k
  | _, factor only, rest, k => only.dialogue rest k
  | _, product left op right, rest, k =>
    left.dialogue (op.symbol :: (right.text ++ rest)) fun a =>
      right.dialogue rest fun b => .after rest k (op.apply a b)
  | _, term only, rest, k => only.dialogue rest k
  | _, sum left op right, rest, k =>
    left.dialogue (op.symbol :: (right.text ++ rest)) fun a => right.dialogue rest fun b => k (op.apply a b)

namespace Machine

variable {limit : Nat} {outer : List Pending} {here : Pending} {rest : List Char}

theorem resume_of_error {value : Float} {fault : Fault} (h : here.multiply value = .error fault) :
    resume limit outer here rest value = .done (.error fault) rest := by
  unfold resume
  rw [h]

theorem resume_of_ok {value product : Float} (h : here.multiply value = .ok product) :
    resume limit outer here rest value = dialogue limit (.operator outer here.sum product rest) := by
  unfold resume
  rw [h]

/-- A number is put to use like the value of a variable. -/
theorem dialogue_number {span : List Char} (hs : Lexeme.number.covers span = true) (hr : Lexeme.number.Ends rest) :
    dialogue limit (.operand outer here (span ++ rest)) =
      .after rest (resume limit outer here rest) (Number.read (String.ofList span)) := by
  cases hv : Number.read (String.ofList span) with
  | error fault => exact dialogue_of_stop (step_of_rule (.badNumber hs hr hv))
  | ok value =>
    cases hm : here.multiply value with
    | error fault =>
      rw [dialogue_of_stop (step_of_rule (.divided hs hr hv hm))]
      exact (resume_of_error hm).symm
    | ok product =>
      rw [dialogue_of_move (step_of_rule (.number hs hr hv hm))]
      exact (resume_of_ok hm).symm

theorem dialogue_close (sum : Option (Float × SumOperator)) (product : Float) :
    dialogue limit (.operator (here :: outer) sum product (')' :: rest)) =
      resume limit outer here rest (addTo sum product) := by
  cases hm : here.multiply (addTo sum product) with
  | error fault => rw [dialogue_of_stop (step_of_rule (.groupDivided hm)), resume_of_error hm]
  | ok value => rw [dialogue_of_move (step_of_rule (.closed hm)), resume_of_ok hm]

end Machine

/-! ## The machine on the text of a tree -/

open Machine (Pending resume)

mutual

theorem Tree.dialogue_factor {limit : Nat} {rest : List Char} (hr : Stops rest) (outer : List Pending)
    (here : Pending) : ∀ t : Tree .factor, outer.length + t.nesting ≤ limit →
      Machine.dialogue limit (.operand outer here (t.text ++ rest)) = t.dialogue rest (resume limit outer here rest)
  | .number span hs, _ => Machine.dialogue_number hs (hr.ends .number)
  | .name span hs, _ => Machine.dialogue_of_lookup (Machine.step_of_rule (.name hs (hr.ends .name)))
  | .group inner, hn => by
    have hinner : (here :: outer).length + inner.nesting ≤ limit := by
      rw [List.length_cons]
      simp only [Tree.nesting] at hn
      omega
    have hd : outer.length < limit := by
      rw [List.length_cons] at hinner
      omega
    rw [Tree.text_group_append, Machine.dialogue_of_move (Machine.step_of_rule (.opened hd))]
    exact Tree.dialogue_expression (stops_cons rest (by decide)) (here :: outer) Machine.dialogue_close inner hinner
termination_by t => sizeOf t

theorem Tree.dialogue_term {limit : Nat} {rest : List Char} (hr : Stops rest) (outer : List Pending)
    (sum : Option (Float × SumOperator)) : ∀ t : Tree .term, outer.length + t.nesting ≤ limit →
      Machine.dialogue limit (.operand outer ⟨sum, none⟩ (t.text ++ rest)) =
        t.dialogue rest fun value => Machine.dialogue limit (.operator outer sum value rest)
  | .factor only, hn => Tree.dialogue_factor hr outer ⟨sum, none⟩ only hn
  | .product left op right, hn => by
    simp only [Tree.nesting] at hn
    have hl : outer.length + left.nesting ≤ limit := by omega
    have hleft := Tree.dialogue_term (stops_cons (right.text ++ rest) op.symbol_mem_signs) outer sum left hl
    rw [Tree.text_product_append, hleft, Tree.dialogue]
    congr 1
    funext a
    rw [Machine.dialogue_of_move (Machine.step_of_rule (.times op)),
      Tree.dialogue_factor hr outer ⟨sum, some (a, op)⟩ right (by omega)]
    -- on both sides the product is what is used
    congr 1
termination_by t => sizeOf t

theorem Tree.dialogue_expression {limit : Nat} {rest : List Char} (hr : Stops rest) (outer : List Pending)
    {k : Float → Dialogue} (hk : ∀ sum product, Machine.dialogue limit (.operator outer sum product rest) =
      k (Machine.addTo sum product)) : ∀ t : Tree .expression, outer.length + t.nesting ≤ limit →
      Machine.dialogue limit (.operand outer {} (t.text ++ rest)) = t.dialogue rest k
  | .term only, hn => by
    rw [Tree.text, Tree.dialogue_term hr outer none only hn, Tree.dialogue]
    congr 1
    funext value
    exact hk none value
  | .sum left op right, hn => by
    simp only [Tree.nesting] at hn
    rw [Tree.text_sum_append, Tree.dialogue]
    refine Tree.dialogue_expression (stops_cons _ op.symbol_mem_signs) outer (fun sum product => ?_) left (by omega)
    rw [Machine.dialogue_of_move (Machine.step_of_rule (.plus op)),
      Tree.dialogue_term hr outer (some (Machine.addTo sum product, op)) right (by omega)]
    congr 1
    funext value
    exact hk (some (Machine.addTo sum product, op)) value
termination_by t => sizeOf t

end

/-- **The evaluation of the text of a tree** is the dialogue of the tree. -/
theorem Tree.dialogueOf_text {limit : Nat} (t : Tree .expression) (hn : t.nesting ≤ limit) :
    dialogueOf limit (String.ofList t.text) = t.dialogue [] fun value => .done (.ok value) [] := by
  have hk : ∀ sum product, Machine.dialogue limit (.operator [] sum product []) =
      .done (.ok (Machine.addTo sum product)) [] := fun sum product =>
    Machine.dialogue_of_stop (Machine.step_of_rule .finished)
  have h := Tree.dialogue_expression (k := fun value => .done (.ok value) []) stops_nil [] hk t (by simpa using hn)
  rw [List.append_nil] at h
  unfold dialogueOf
  rw [String.toList_ofList]
  exact h

/-! ## Carrying the dialogue of a tree out -/

/-- An evaluation less the place where it stopped. -/
def Evaluation.result (e : Evaluation) : Tree.Result := (e.outcome, e.store, e.lookups)

section

variable {m : Type → Type} [Monad m] [LawfulMonad m] (ask : String → m Reply)

/-- A result, and what its value is used for on the bindings that it leaves; a fault ends it. -/
def Tree.carryOn {m : Type → Type} [Monad m] (next : Float → Store → m Tree.Result) : Tree.Result → m Tree.Result
  | (.error fault, store, lookups) => pure (.error fault, store, lookups)
  | (.ok value, store, lookups) => (fun r => (r.1, r.2.1, lookups ++ r.2.2)) <$> next value store

/-- What has been looked up before does not matter for what comes next. -/
theorem Tree.map_carryOn (next : Float → Store → m Tree.Result) (x : Except Fault Float) (s : Store)
    (before lookups : List Lookup) :
    (fun r : Tree.Result => (r.1, r.2.1, before ++ r.2.2)) <$> carryOn next (x, s, lookups) =
      carryOn next (x, s, before ++ lookups) := by
  cases x with
  | error fault => simp only [carryOn, map_pure]
  | ok value => simp only [carryOn, Functor.map_map, List.append_assoc]

theorem Tree.carryOn_nil (next : Float → Store → m Tree.Result) (value : Float) (s : Store) :
    carryOn next (.ok value, s, []) = next value s := by
  simp only [carryOn, List.nil_append]
  exact id_map _

theorem Tree.inOrder_bind (apply : Float → Float → Except Fault Float) (left right : Store → m Tree.Result) (s : Store)
    (next : Float → Store → m Tree.Result) :
    inOrder apply left right s >>= carryOn next =
      left s >>= carryOn fun a s' => right s' >>= carryOn fun b s'' => carryOn next (apply a b, s'', []) := by
  unfold inOrder
  rw [bind_assoc]
  refine bind_congr fun first => ?_
  obtain ⟨first, s', lookups⟩ := first
  cases first with
  | error fault => simp only [pure_bind, carryOn]
  | ok a =>
    simp only [bind_assoc, pure_bind]
    rw [carryOn, map_bind]
    refine bind_congr fun second => ?_
    obtain ⟨second, s'', more⟩ := second
    rw [map_carryOn]
    cases second with
    | error fault => rfl
    | ok b => rw [carryOn, map_carryOn, List.append_nil]; rfl

theorem Dialogue.run_after (unread : List Char) (k : Float → Dialogue) (x : Except Fault Float) (s : Store) :
    Evaluation.result <$> (Dialogue.after unread k x).run ask s =
      Tree.carryOn (fun value s' => Evaluation.result <$> (k value).run ask s') (x, s, []) := by
  cases x with
  | error fault => simp only [after, run, map_pure, Tree.carryOn]; rfl
  | ok value => rw [Tree.carryOn_nil, after]

theorem Dialogue.run_lookup (name : String) (unread : List Char) (proceed : Float → Dialogue) (s : Store) :
    Evaluation.result <$> (Dialogue.lookup name unread proceed).run ask s =
      s.resolve ask name >>= fun found =>
        Tree.carryOn (fun value s' => Evaluation.result <$> (proceed value).run ask s')
          (found.value, found.store, [found.lookup]) := by
  rw [run, map_bind]
  refine bind_congr fun found => ?_
  cases found.value with
  | error fault => simp only [map_pure, Tree.carryOn]; rfl
  | ok value => simp only [Tree.carryOn, ← bind_pure_comp, bind_assoc, pure_bind]; rfl

/-- **Carrying the dialogue of a tree out is evaluating the tree**, and then whatever its value is used for. -/
theorem Tree.run_dialogue : ∀ {level : Level} (t : Tree level) (rest : List Char) (k : Float → Dialogue) (s : Store),
    Evaluation.result <$> (t.dialogue rest k).run ask s =
      t.evaluate ask s >>= carryOn fun value s' => Evaluation.result <$> (k value).run ask s'
  | _, number span hs, rest, k, s => by
    rw [dialogue, Dialogue.run_after, evaluate, pure_bind]
  | _, name span hs, rest, k, s => by
    rw [dialogue, Dialogue.run_lookup, evaluate, bind_assoc]
    simp only [pure_bind]
  | _, group inner, rest, k, s => inner.run_dialogue (')' :: rest) k s
  | _, factor only, rest, k, s => only.run_dialogue rest k s
  | _, product left op right, rest, k, s => by
    rw [dialogue, left.run_dialogue, evaluate, inOrder_bind]
    simp only [right.run_dialogue, Dialogue.run_after]
  | _, term only, rest, k, s => only.run_dialogue rest k s
  | _, sum left op right, rest, k, s => by
    rw [dialogue, left.run_dialogue, evaluate, inOrder_bind]
    simp only [right.run_dialogue, carryOn_nil]

theorem Tree.evaluateSource_text {limit : Nat} (t : Tree .expression) (hn : t.nesting ≤ limit) (s : Store) :
    Evaluation.result <$> evaluateSource ask limit s (String.ofList t.text) = t.evaluate ask s := by
  unfold evaluateSource
  rw [t.dialogueOf_text hn, t.run_dialogue]
  refine Eq.trans (bind_congr fun r => ?_) (bind_pure _)
  obtain ⟨outcome, s', lookups⟩ := r
  cases outcome with
  | error fault => rfl
  | ok value => simp only [carryOn, Dialogue.run, map_pure, Evaluation.result, List.append_nil]

end

theorem Tree.exists_of_ok {σ : Type} {ask : String → StateM σ Reply} {limit : Nat} {store : Store} {source : String}
    {memory : σ} {value : Float} (h : ((evaluateSource ask limit store source).run memory).1.outcome = .ok value) :
    ∃ t : Tree .expression, String.ofList t.text = source ∧ t.nesting ≤ limit := by
  have hcourse := course_evaluateSource ask limit store source memory
  obtain ⟨c, s, e, before, ⟨r, hr, hw, htext⟩, hlast, he⟩ := hcourse.exists_last
    (Reading.mirrored_kept limit source.toList) (Reading.mirrored_start limit source.toList store)
  rw [he] at h
  cases hlast with
  | refused | divided => cases h
  | stopped hstep =>
    cases h
    cases Machine.rule_iff.2 hstep with
    | finished =>
      cases hr with
      | @operator outer _ sum _ product _ _ ho hs hp =>
        cases ho
        rw [Reading.text_operator_nil] at htext
        obtain ⟨-, hn⟩ := hw
        refine ⟨.addTo sum product, ?_, by simpa using hn⟩
        rw [← List.append_nil (Tree.addTo sum product).text]
        exact (congrArg String.ofList htext).trans String.ofList_toList

/-- **An expression means what its tree means.**  The text of a tree, its parentheses no deeper than the limit, is
evaluated to the result of the tree: the same outcome, bindings and lookups, and the one who is asked ends up in the
same state.  Only the text of such a tree has a value, and it is the text of no other tree. -/
theorem evaluateSource_grammar {σ : Type} (ask : String → StateM σ Reply) (limit : Nat) (store : Store)
    (source : String) :
    (∀ t : Tree .expression, String.ofList t.text = source → t.nesting ≤ limit →
      Evaluation.result <$> evaluateSource ask limit store source = t.evaluate ask store) ∧
    (∀ memory value, ((evaluateSource ask limit store source).run memory).1.outcome = .ok value →
      ∃ t : Tree .expression, String.ofList t.text = source ∧ t.nesting ≤ limit) ∧
    ∀ t t' : Tree .expression, String.ofList t.text = source → String.ofList t'.text = source → t = t' := by
  refine ⟨?_, fun memory value h => Tree.exists_of_ok h, ?_⟩
  · rintro t rfl hn
    exact t.evaluateSource_text ask hn store
  · rintro t t' rfl h
    exact Tree.text_inj (String.ofList_injective h).symm

/-- A sign that is no operator, a group, and a name that comes up twice and is asked for once. -/
theorem evaluateSource_grammar_group :
    let x : Tree .factor := .name ['x'] (by decide +kernel)
    let two : Tree .factor := .number ['-', '2'] (by decide)
    let three : Tree .factor := .number ['3'] (by decide)
    let group : Tree .factor := .group (.sum (.term (.factor x)) .plus (.factor three))
    let t : Tree .expression := .term (.product (.product (.factor two) .times group) .dividedBy x)
    let source := "-2*(x+3)/x"
    let ask : String → StateM Nat Reply := fun _ => modifyGet fun asked => (.ok "1", asked + 1)
    let (e, asked) := (evaluateSource ask 1 .empty source).run 0
    (String.ofList t.text = source ∧ t.nesting ≤ 1 ∧ e.outcome = .ok (-8) ∧ asked = 1) ∧
    Evaluation.result <$> evaluateSource ask 1 .empty source = t.evaluate ask .empty ∧
    (∃ t' : Tree .expression, String.ofList t'.text = source ∧ t'.nesting ≤ 1) ∧
    ∀ t' : Tree .expression, String.ofList t'.text = source → t' = t := by
  intro x two three group t source ask
  have htext : String.ofList t.text = source := by decide
  have hvalue : ((evaluateSource ask 1 .empty source).run 0).1.outcome = .ok (-8) := by decide +kernel
  obtain ⟨hresult, hexists, hunique⟩ := evaluateSource_grammar ask 1 .empty source
  exact ⟨⟨htext, by decide, hvalue, by decide +kernel⟩, hresult t htext (by decide), hexists 0 _ hvalue,
    fun t' h => hunique t' t h htext⟩

end Calculator
