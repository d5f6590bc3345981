import Mathlib.Data.List.Forall2
import Calculator.Proofs.Course
import Calculator.Proofs.Reading
/-!
# Proofs.Mirror — what the machine holds is what has been read

A configuration keeps numbers where a reading keeps trees, and each number is the value that its tree has on the
store (`Reading.Mirrors`), which is what evaluating the tree there would give (`Tree.ComesTo`).  Every step of the
machine is a step of reading and keeps it so, with parentheses no deeper than the limit allows (`mirrored_kept`).
-/
namespace Calculator

/-- The value of a tree whose names are all bound. -/
def Tree.value? (s : Store) : {level : Level} → Tree level → Option Float
  | _, number span _ => (Number.read (String.ofList span)).toOption
  | _, name span _ => s.get? (String.ofList span)
  | _, group inner => inner.value? s
  | _, factor only => only.value? s
  | _, product left op right => do (op.apply (← left.value? s) (← right.value? s)).toOption
  | _, term only => only.value? s
  | _, sum left op right => do return op.apply (← left.value? s) (← right.value? s)

theorem Tree.value?_mono {s t : Store} (h : s ≤ t) : ∀ {level : Level} (tree : Tree level) {value : Float},
    tree.value? s = some value → tree.value? t = some value
  | _, number span hs, _, hv => hv
  | _, name span hs, value, hv => h _ value hv
  | _, group inner, _, hv => value?_mono h inner hv
  | _, factor only, _, hv => value?_mono h only hv
  | _, product left op right, value, hv => by
    simp only [value?, Option.bind_eq_bind, Option.bind_eq_some_iff] at hv ⊢
    obtain ⟨a, ha, b, hb, hab⟩ := hv
    exact ⟨a, value?_mono h left ha, b, value?_mono h right hb, hab⟩
  | _, term only, _, hv => value?_mono h only hv
  | _, sum left op right, value, hv => by
    simp only [value?, Option.bind_eq_bind, Option.bind_eq_some_iff] at hv ⊢
    obtain ⟨a, ha, b, hb, hab⟩ := hv
    exact ⟨a, value?_mono h left ha, b, value?_mono h right hb, hab⟩

theorem Tree.inOrder_of_pure {m : Type → Type} [Monad m] [LawfulMonad m] (apply : Float → Float → Except Fault Float)
    {left right : Store → m Result} {s : Store} {a b : Float} {before after : List Lookup}
    (hl : left s = pure (.ok a, s, before)) (hr : right s = pure (.ok b, s, after)) :
    inOrder apply left right s = pure (apply a b, s, before ++ after) := by
  rw [inOrder, hl]
  simp only [pure_bind, hr]
  rfl

/-- A tree whose names are all bound is evaluated to its value, and nobody is asked. -/
theorem Tree.evaluate_of_value? {m : Type → Type} [Monad m] [LawfulMonad m] (ask : String → m Reply) {s : Store} :
    ∀ {level : Level} (tree : Tree level) {value : Float}, tree.value? s = some value →
      ∃ lookups : List Lookup, (∀ l ∈ lookups, l.prompt? = none) ∧
        tree.evaluate ask s = pure (.ok value, s, lookups)
  | _, number span hs, value, hv => by
    refine ⟨[], fun l hl => (List.not_mem_nil hl).elim, ?_⟩
    simp only [value?] at hv
    rw [evaluate]
    cases hr : Number.read (String.ofList span) with
    | error fault => rw [hr] at hv; cases hv
    | ok read => rw [hr] at hv; cases hv; rfl
  | _, name span hs, value, hv => by
    refine ⟨[.known (String.ofList span)], fun l hl => by rw [List.mem_singleton.1 hl]; rfl, ?_⟩
    simp only [value?] at hv
    rw [evaluate, Store.resolve, hv]
    simp only [pure_bind]
  | _, group inner, _, hv => inner.evaluate_of_value? ask hv
  | _, factor only, _, hv => only.evaluate_of_value? ask hv
  | _, product left op right, value, hv => by
    simp only [value?, Option.bind_eq_bind, Option.bind_eq_some_iff] at hv
    obtain ⟨a, ha, b, hb, hab⟩ := hv
    obtain ⟨before, hbefore, hleft⟩ := left.evaluate_of_value? ask ha
    obtain ⟨after, hafter, hright⟩ := right.evaluate_of_value? ask hb
    refine ⟨before ++ after, fun l hl => (List.mem_append.1 hl).elim (hbefore l) (hafter l), ?_⟩
    rw [evaluate, inOrder_of_pure op.apply hleft hright]
    cases hop : op.apply a b with
    | error fault => rw [hop] at hab; cases hab
    | ok result => rw [hop] at hab; cases hab; rfl
  | _, term only, _, hv => only.evaluate_of_value? ask hv
  | _, sum left op right, value, hv => by
    simp only [value?, Option.bind_eq_bind, Option.bind_eq_some_iff] at hv
    obtain ⟨a, ha, b, hb, hab⟩ := hv
    obtain ⟨before, hbefore, hleft⟩ := left.evaluate_of_value? ask ha
    obtain ⟨after, hafter, hright⟩ := right.evaluate_of_value? ask hb
    refine ⟨before ++ after, fun l hl => (List.mem_append.1 hl).elim (hbefore l) (hafter l), ?_⟩
    cases hab
    exact inOrder_of_pure (fun a b => .ok (op.apply a b)) hleft hright

/-- Whether evaluating a tree on a store gives this value, whoever could be asked, and asks nobody. -/
def Tree.ComesTo (s : Store) {level : Level} (tree : Tree level) (value : Float) : Prop :=
  ∀ {m : Type → Type} [Monad m] [LawfulMonad m] (ask : String → m Reply),
    ∃ lookups : List Lookup, (∀ l ∈ lookups, l.prompt? = none) ∧ tree.evaluate ask s = pure (.ok value, s, lookups)

theorem Tree.comesTo_of_value? {s : Store} {level : Level} {tree : Tree level} {value : Float}
    (h : tree.value? s = some value) : tree.ComesTo s value :=
  fun ask => tree.evaluate_of_value? ask h

/-- A number that waits for its right operand has the value of the tree that waits for it, and the same operator. -/
def Awaits {level : Level} {Op : Type} (s : Store) : Option (Tree level × Op) → Option (Float × Op) → Prop
  | none, none => True
  | some (tree, op), some (value, op') => tree.value? s = some value ∧ op = op'
  | _, _ => False

theorem Awaits.mono {level : Level} {Op : Type} {s t : Store} (h : s ≤ t) :
    ∀ {trees : Option (Tree level × Op)} {values : Option (Float × Op)}, Awaits s trees values → Awaits t trees values
  | none, none, _ => trivial
  | some (tree, _), some _, hv => ⟨tree.value?_mono h hv.1, hv.2⟩
  | none, some _, hv => hv.elim
  | some _, none, hv => hv.elim

/-- What waits on one level, as trees and as numbers. -/
structure Opening.Mirrors (s : Store) (o : Opening) (p : Machine.Pending) : Prop where
  sum : Awaits s o.sum p.sum
  product : Awaits s o.product p.product

theorem Opening.Mirrors.mono {s t : Store} (h : s ≤ t) {o : Opening} {p : Machine.Pending} (hm : o.Mirrors s p) :
    o.Mirrors t p :=
  ⟨hm.sum.mono h, hm.product.mono h⟩

theorem Machine.Pending.multiply_of_none {p : Machine.Pending} (value : Float) (h : p.product = none) :
    p.multiply value = .ok value := by
  unfold multiply
  rw [h]

theorem Machine.Pending.multiply_of_some {p : Machine.Pending} {left : Float} {op : ProductOperator} (value : Float)
    (h : p.product = some (left, op)) : p.multiply value = op.apply left value := by
  unfold multiply
  rw [h]

/-- Only a quotient by a zero has no value. -/
theorem ProductOperator.apply_eq_error {op : ProductOperator} {a b : Float} {fault : Fault}
    (h : op.apply a b = .error fault) : fault = .divisionByZero ∧ (b == 0) = true ∧ op = .dividedBy := by
  cases op with
  | times => cases h
  | dividedBy =>
    simp only [apply] at h
    by_cases hz : (b == 0) = true
    · rw [if_pos hz] at h
      cases h
      exact ⟨rfl, hz, rfl⟩
    · rw [if_neg hz] at h
      cases h

namespace Awaits

variable {s : Store}

theorem none_or_some {level : Level} {Op : Type} : ∀ {trees : Option (Tree level × Op)} {values : Option (Float × Op)},
    Awaits s trees values → trees = none ∧ values = none ∨
      ∃ left op value, trees = some (left, op) ∧ values = some (value, op) ∧ left.value? s = some value
  | none, none, _ => .inl ⟨rfl, rfl⟩
  | some (left, op), some (value, _), ⟨hv, rfl⟩ => .inr ⟨left, op, value, rfl, rfl, hv⟩
  | none, some _, h => h.elim
  | some _, none, h => h.elim

theorem addTo {trees : Option (Tree .expression × SumOperator)} {values : Option (Float × SumOperator)}
    {right : Tree .term} {value : Float} (h : Awaits s trees values) (hv : right.value? s = some value) :
    (Tree.addTo trees right).value? s = some (Machine.addTo values value) := by
  rcases h.none_or_some with ⟨rfl, rfl⟩ | ⟨left, op, a, rfl, rfl, ha⟩
  · exact hv
  · simp only [Tree.addTo, Tree.value?, ha, hv]
    rfl

variable {trees : Option (Tree .term × ProductOperator)} {p : Machine.Pending} {right : Tree .factor} {value : Float}

theorem multiply_ok (h : Awaits s trees p.product) (hv : right.value? s = some value) {product : Float}
    (hm : p.multiply value = .ok product) : (Tree.multiplyTo trees right).value? s = some product := by
  rcases h.none_or_some with ⟨rfl, hp⟩ | ⟨left, op, a, rfl, hp, ha⟩
  · rw [Machine.Pending.multiply_of_none value hp] at hm
    cases hm
    exact hv
  · rw [Machine.Pending.multiply_of_some value hp] at hm
    simp only [Tree.multiplyTo, Tree.value?, ha, hv, Option.bind_eq_bind, Option.bind_some, hm]
    rfl

theorem multiply_error (h : Awaits s trees p.product) {fault : Fault} (hm : p.multiply value = .error fault) :
    fault = .divisionByZero ∧ (value == 0) = true ∧ ∃ left, trees = some (left, .dividedBy) := by
  rcases h.none_or_some with ⟨rfl, hp⟩ | ⟨left, op, a, rfl, hp, -⟩
  · rw [Machine.Pending.multiply_of_none value hp] at hm
    cases hm
  · rw [Machine.Pending.multiply_of_some value hp] at hm
    obtain ⟨hfault, hz, rfl⟩ := ProductOperator.apply_eq_error hm
    exact ⟨hfault, hz, left, rfl⟩

end Awaits

namespace Tree

def pendingNesting {level : Level} {Op : Type} : Option (Tree level × Op) → Nat
  | none => 0
  | some (left, _) => left.nesting

theorem nesting_addTo (trees : Option (Tree .expression × SumOperator)) (right : Tree .term) :
    (addTo trees right).nesting = max (pendingNesting trees) right.nesting := by
  rcases trees with _ | ⟨left, op⟩
  · exact (Nat.zero_max _).symm
  · rfl

theorem nesting_multiplyTo (trees : Option (Tree .term × ProductOperator)) (right : Tree .factor) :
    (multiplyTo trees right).nesting = max (pendingNesting trees) right.nesting := by
  rcases trees with _ | ⟨left, op⟩
  · exact (Nat.zero_max _).symm
  · rfl

end Tree

def Opening.nesting (o : Opening) : Nat := max (Tree.pendingNesting o.sum) (Tree.pendingNesting o.product)

/-- Whether nothing that waits outside of the open parentheses is nested too deep for its place. -/
def OuterWithin (limit : Nat) : List Opening → Prop
  | [] => True
  | here :: outer => OuterWithin limit outer ∧ outer.length + here.nesting ≤ limit ∧ outer.length < limit

namespace Reading

/-- Whether nothing that has been read is nested deeper than the limit. -/
def Within (limit : Nat) : Reading → Prop
  | operand outer here => OuterWithin limit outer ∧ outer.length + here.nesting ≤ limit
  | operator outer sum product => OuterWithin limit outer ∧ outer.length + (Tree.addTo sum product).nesting ≤ limit

/-- A configuration holds the values of what has been read. -/
inductive Mirrors (s : Store) : Reading → Machine.Config → Prop where
  | operand {outer : List Opening} {outer' : List Machine.Pending} {here : Opening} {here' : Machine.Pending}
    {unread : List Char} (ho : List.Forall₂ (Opening.Mirrors s) outer outer') (hh : here.Mirrors s here') :
    Mirrors s (.operand outer here) (.operand outer' here' unread)
  | operator {outer : List Opening} {outer' : List Machine.Pending} {sum : Option (Tree .expression × SumOperator)}
    {sum' : Option (Float × SumOperator)} {product : Tree .term} {product' : Float} {unread : List Char}
    (ho : List.Forall₂ (Opening.Mirrors s) outer outer') (hs : Awaits s sum sum')
    (hp : product.value? s = some product') :
    Mirrors s (.operator outer sum product) (.operator outer' sum' product' unread)

variable {limit : Nat} {s : Store}

theorem within_multiplyTo {outer : List Opening} {here : Opening} {right : Tree .factor}
    (hw : (operand outer here).Within limit) (hr : outer.length + right.nesting ≤ limit) :
    (operator outer here.sum (.multiplyTo here.product right)).Within limit := by
  obtain ⟨ho, hn⟩ := hw
  refine ⟨ho, ?_⟩
  rw [Tree.nesting_addTo, Tree.nesting_multiplyTo]
  unfold Opening.nesting at hn
  omega

/-- **A step that goes on is a step of reading.** -/
theorem Mirrors.move {r : Reading} {c next : Machine.Config} (h : r.Mirrors s c) (hw : r.Within limit)
    (hstep : Machine.step limit c = .move next) :
    ∃ r', Reads (r, c.unread) (r', next.unread) ∧ r'.Mirrors s next ∧ r'.Within limit := by
  cases h with
  | @operand outer _ here _ _ ho hh =>
    cases Machine.rule_iff.2 hstep with
    | number hs hr hv hm =>
      have hvalue : (Tree.number _ hs).value? s = some _ := congrArg Except.toOption hv
      exact ⟨_, .number hs hr, .operator ho hh.sum (hh.product.multiply_ok hvalue hm),
        within_multiplyTo hw (Nat.le_trans (Nat.add_le_add_left (Nat.zero_le _) _) hw.2)⟩
    | opened hd =>
      rw [← ho.length_eq] at hd
      exact ⟨_, .opened, .operand (.cons hh ho) ⟨trivial, trivial⟩, ⟨hw.1, hw.2, hd⟩, hd⟩
  | @operator outer _ sum sum' product product' _ ho hs hp =>
    cases Machine.rule_iff.2 hstep with
    | times op =>
      obtain ⟨how, hn⟩ := hw
      rw [Tree.nesting_addTo] at hn
      exact ⟨_, .times op, .operand ho ⟨hs, hp, rfl⟩, how, hn⟩
    | plus op =>
      refine ⟨_, .plus op, .operand ho ⟨⟨hs.addTo hp, rfl⟩, trivial⟩, hw.1, ?_⟩
      simpa [Opening.nesting, Tree.pendingNesting] using hw.2
    | closed hm =>
      cases ho with
      | @cons here here' outer outer' hh ho =>
        obtain ⟨⟨how, hn, hd⟩, hgroup⟩ := hw
        have hvalue : (Tree.group (.addTo sum product)).value? s = some _ := hs.addTo hp
        refine ⟨_, .closed, .operator ho hh.sum (hh.product.multiply_ok hvalue hm),
          within_multiplyTo ⟨how, hn⟩ ?_⟩
        rw [List.length_cons] at hgroup
        simp only [Tree.nesting]
        omega

theorem Mirrors.of_lookup {r : Reading} {c : Machine.Config} (h : r.Mirrors s c) {name : String}
    {outer' : List Machine.Pending} {here' : Machine.Pending} {unread : List Char}
    (hstep : Machine.step limit c = .lookup name outer' here' unread) :
    ∃ outer here span, r = .operand outer here ∧ List.Forall₂ (Opening.Mirrors s) outer outer' ∧ here.Mirrors s here' ∧
      c.unread = span ++ unread ∧ name = String.ofList span ∧ Lexeme.name.covers span = true ∧
      Lexeme.name.Ends unread := by
  obtain ⟨span, rfl, rfl, hs, hr⟩ := Machine.of_step_lookup hstep
  cases h with
  | operand ho hh => exact ⟨_, _, span, rfl, ho, hh, rfl, rfl, hs, hr⟩

/-- **A lookup with a value is a step of reading.** -/
theorem Mirrors.resume {r : Reading} {c : Machine.Config} (h : r.Mirrors s c) (hw : r.Within limit) {name : String}
    {outer' : List Machine.Pending} {here' : Machine.Pending} {unread : List Char} {found : Resolution}
    {value product : Float} (hstep : Machine.step limit c = .lookup name outer' here' unread)
    (hf : s.Resolves name found) (hv : found.value = .ok value) (hm : here'.multiply value = .ok product) :
    ∃ r', Reads (r, c.unread) (r', unread) ∧
      r'.Mirrors found.store (.operator outer' here'.sum product unread) ∧ r'.Within limit := by
  obtain ⟨outer, here, span, rfl, ho, hh, hunread, rfl, hs, hr⟩ := h.of_lookup hstep
  have hh := hh.mono hf.le
  have hvalue : (Tree.name span hs).value? found.store = some value := hf.get?_of_ok hv
  have ho := ho.imp fun _ _ => Opening.Mirrors.mono hf.le
  rw [hunread]
  exact ⟨_, .name hs hr, .operator ho hh.sum (hh.product.multiply_ok hvalue hm),
    within_multiplyTo hw (Nat.le_trans (Nat.add_le_add_left (Nat.zero_le _) _) hw.2)⟩

/-- A configuration that holds the values of what has been read of the source, with nothing nested too deep. -/
def Mirrored (limit : Nat) (source : List Char) (c : Machine.Config) (s : Store) : Prop :=
  ∃ r : Reading, r.Mirrors s c ∧ r.Within limit ∧ r.text ++ c.unread = source

theorem mirrored_start (limit : Nat) (source : List Char) (s : Store) : Mirrored limit source (.start source) s :=
  ⟨.operand [] {}, .operand .nil ⟨trivial, trivial⟩, ⟨trivial, Nat.zero_le _⟩, rfl⟩

/-- **Every step keeps it so.** -/
theorem mirrored_kept (limit : Nat) (source : List Char) : Machine.Kept limit (Mirrored limit source) where
  move := by
    rintro c next s ⟨r, hr, hw, htext⟩ hstep
    obtain ⟨r', hreads, hr', hw'⟩ := hr.move hw hstep
    exact ⟨r', hr', hw', hreads.text_eq.trans htext⟩
  resume := by
    rintro c s name outer here unread found value product ⟨r, hr, hw, htext⟩ hstep hf hv hm
    obtain ⟨r', hreads, hr', hw'⟩ := hr.resume hw hstep hf hv hm
    exact ⟨r', hr', hw', hreads.text_eq.trans htext⟩

end Reading
end Calculator
