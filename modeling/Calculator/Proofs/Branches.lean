import Calculator.Cursor
/-!
# Proofs.Branches — cursors that are saved and gone on from

Any number of cursors over one text may be saved and gone on from, in any order.  Each of them stands at the end of what
was taken on its branch (`Cursor.StandsAt`): that is the text before its position, and what remains is the text from
there on.  So positions are counted in bytes and never lie within a character (`Cursor.standsAt_walk`).
-/
namespace Calculator

theorem byteLength_eq : ∀ l : List Char, byteLength l = (String.ofList l).utf8ByteSize
  | [] => rfl
  | c :: rest => by
    rw [String.ofList_cons, String.utf8ByteSize_append, String.utf8ByteSize_singleton, byteLength, byteLength_eq rest]

namespace Cursor

/-- What an action has taken from the text, by its answer. -/
def Answer.taken : Action → Answer → String
  | .takeChar, .character (some found) => String.singleton found
  | .take _, .text taken => taken
  | _, _ => ""

/-- Something for the cursor in use, and something for each one that is saved. -/
structure Branches (α : Type) where
  current : α
  kept : Nat → α

namespace Branches

variable {α : Type}

def fresh (a : α) : Branches α := ⟨a, fun _ => a⟩

def save (b : Branches α) (slot : Nat) : Branches α :=
  { b with kept := fun k => if k = slot then b.current else b.kept k }

def restore (b : Branches α) (slot : Nat) : Branches α := { b with current := b.kept slot }

theorem update_kept (b : Branches α) (slot : Nat) :
    (⟨b.current, fun k => if k = slot then b.kept slot else b.kept k⟩ : Branches α) = b := by
  refine congrArg (Branches.mk b.current) (funext fun k => ?_)
  split
  · rename_i hk
    rw [hk]
  · rfl

/-- An action whose kept cursor is the one in that slot. -/
def perform (b : Branches Cursor) (slot : Nat) (action : Action) : Answer × Branches Cursor :=
  let (answer, w) := (⟨b.current, b.kept slot⟩ : Walk).perform action
  (answer, ⟨w.current, fun k => if k = slot then w.kept else b.kept k⟩)

/-- What has been taken on each branch, once an action is answered. -/
def follow (t : Branches String) (slot : Nat) (answer : Answer) : Action → Branches String
  | .save => t.save slot
  | .restore => t.restore slot
  | action => { t with current := t.current ++ answer.taken action }

end Branches

/-- Actions one after another, each with the slot that it saves to or restores from: the cursors, and what was taken
on their branches. -/
def walk (text : String) (actions : List (Nat × Action)) : Branches Cursor × Branches String :=
  actions.foldl (fun (b, t) (slot, action) =>
    let (answer, next) := b.perform slot action
    (next, t.follow slot answer action)) (.fresh (ofText text), .fresh "")

/-! ## Where a cursor stands -/

/-- Whether a cursor stands where just this has been taken from the text. -/
structure StandsAt (text taken : String) (c : Cursor) : Prop where
  /-- The position is the start of a character, or the end of the text. -/
  valid : (⟨c.position⟩ : String.Pos.Raw).IsValid text
  le : c.position ≤ text.utf8ByteSize
  /-- The text up to the position, and from there on. -/
  splits : (text.pos ⟨c.position⟩ valid).Splits taken c.remaining
  peek_eq : c.peek? = c.remaining.toList.head?
  isExhausted_iff : c.isExhausted = true ↔ c.remaining = ""
  isExhausted_iff_le : c.isExhausted = true ↔ text.utf8ByteSize ≤ c.position

theorem StandsAt.of_append {text taken : String} {c : Cursor} (htext : text = taken ++ c.remaining)
    (hpos : c.position = taken.utf8ByteSize) : StandsAt text taken c := by
  have hsize : text.utf8ByteSize = c.position + c.remaining.utf8ByteSize := by
    rw [hpos, ← String.utf8ByteSize_append, ← htext]
  have hempty : c.isExhausted = true ↔ c.remaining = "" := by
    rw [isExhausted, List.isEmpty_iff, remaining, String.ofList_eq_empty_iff]
  have hoffset : (⟨c.position⟩ : String.Pos.Raw) = taken.rawEndPos := congrArg String.Pos.Raw.mk hpos
  refine ⟨String.Pos.Raw.isValid_iff_exists_append.2 ⟨taken, c.remaining, htext, hoffset⟩, by omega,
    ⟨htext, hoffset⟩, ?_, hempty, ?_⟩
  · rw [peek?, remaining, String.toList_ofList]
  · rw [hempty, ← String.utf8ByteSize_eq_zero_iff]
    omega

theorem standsAt_ofText (text : String) : StandsAt text "" (ofText text) := by
  refine .of_append ?_ rfl
  rw [String.empty_append, ofText, remaining, String.ofList_toList]

/-- Whether going from one cursor to the other takes this text, and nothing moves when there is none. -/
structure Takes (c : Cursor) (taken : String) (next : Cursor) : Prop where
  remaining_eq : c.remaining = taken ++ next.remaining
  position_eq : next.position = c.position + taken.utf8ByteSize
  eq_of_empty : taken = "" → next = c

theorem StandsAt.takes {text before taken : String} {c next : Cursor} (h : StandsAt text before c)
    (ht : Takes c taken next) : StandsAt text (before ++ taken) next := by
  refine .of_append ?_ ?_
  · rw [String.append_assoc, ← ht.remaining_eq]
    exact h.splits.eq_append
  · have hpos : c.position = before.utf8ByteSize := congrArg String.Pos.Raw.byteIdx h.splits.offset_eq_rawEndPos
    rw [ht.position_eq, hpos, String.utf8ByteSize_append]

theorem takes_nothing (c : Cursor) : Takes c "" c := ⟨String.empty_append.symm, rfl, fun _ => rfl⟩

theorem takes_takeChar (c : Cursor) :
    Takes c ((Answer.character c.takeChar.1).taken .takeChar) c.takeChar.2 := by
  obtain ⟨source, position, _ | ⟨next, rest⟩⟩ := c
  · exact takes_nothing _
  · show Takes _ (String.singleton next) ⟨source, position + next.utf8Size, rest⟩
    refine ⟨String.ofList_cons, ?_, fun h => ?_⟩
    · rw [String.utf8ByteSize_singleton]
    · exact absurd h String.singleton_ne_empty

theorem takeChar_fst (c : Cursor) : c.takeChar.1 = c.peek? := by
  obtain ⟨source, position, _ | ⟨next, rest⟩⟩ := c <;> rfl

theorem takes_take (c : Cursor) (kind : Lexeme) :
    Takes c ((Answer.text (c.take kind).1).taken (.take kind)) (c.take kind).2 := by
  obtain ⟨source, position, ahead⟩ := c
  show Takes _ (String.ofList (kind.split ahead).1)
    ⟨source, position + byteLength (kind.split ahead).1, (kind.split ahead).2⟩
  have happend := kind.split_append ahead
  refine ⟨?_, ?_, fun h => ?_⟩
  · rw [remaining, remaining, ← String.ofList_append, happend]
  · rw [byteLength_eq]
  · have hnil : (kind.split ahead).1 = [] := String.ofList_eq_empty_iff.1 h
    rw [hnil, List.nil_append] at happend
    rw [hnil, happend]
    rfl

/-! ## One action, and all of them -/

/-- What an action does to the cursors. -/
structure Performs (b : Branches Cursor) (slot : Nat) (action : Action) (answer : Answer) (next : Branches Cursor) :
    Prop where
  takes : action ≠ .restore → Takes b.current (answer.taken action) next.current
  answer_eq : action = .peek ∨ action = .takeChar → answer = .character b.current.peek?
  /-- No cursor that is saved changes when something is taken. -/
  kept_eq : action ≠ .save → next.kept = b.kept
  save_eq : action = .save → next = b.save slot
  restore_eq : action = .restore → next = b.restore slot

theorem performs (b : Branches Cursor) (slot : Nat) (action : Action) :
    Performs b slot action (b.perform slot action).1 (b.perform slot action).2 := by
  have hkept : (fun k => if k = slot then b.kept slot else b.kept k) = b.kept :=
    congrArg Branches.kept (b.update_kept slot)
  cases action with
  | peek => exact ⟨fun _ => takes_nothing _, fun _ => rfl, fun _ => hkept, nofun, nofun⟩
  | remaining => exact ⟨fun _ => takes_nothing _, by simp, fun _ => hkept, nofun, nofun⟩
  | takeChar =>
    exact ⟨fun _ => takes_takeChar _, fun _ => congrArg _ b.current.takeChar_fst, fun _ => hkept, nofun, nofun⟩
  | take kind => exact ⟨fun _ => takes_take _ kind, by simp, fun _ => hkept, nofun, nofun⟩
  | save => exact ⟨fun _ => takes_nothing _, by simp, fun h => absurd rfl h, fun _ => rfl, nofun⟩
  | restore =>
    exact ⟨fun h => absurd rfl h, by simp, fun _ => hkept, nofun, fun _ => congrArg (Branches.mk _) hkept⟩

/-- Whether all cursors stand where their branches have led. -/
def Stand (text : String) (b : Branches Cursor) (t : Branches String) : Prop :=
  StandsAt text t.current b.current ∧ ∀ slot, StandsAt text (t.kept slot) (b.kept slot)

theorem Stand.perform {text : String} {b : Branches Cursor} {t : Branches String} (h : Stand text b t) (slot : Nat)
    (action : Action) : Stand text (b.perform slot action).2 (t.follow slot (b.perform slot action).1 action) := by
  have hp := performs b slot action
  obtain ⟨hcurrent, hkept⟩ := h
  cases action with
  | save =>
    rw [hp.save_eq rfl]
    refine ⟨hcurrent, fun k => ?_⟩
    dsimp only [Branches.follow, Branches.save]
    split
    · exact hcurrent
    · exact hkept k
  | restore =>
    rw [hp.restore_eq rfl]
    exact ⟨hkept slot, hkept⟩
  | peek | remaining | takeChar | take =>
    refine ⟨hcurrent.takes (hp.takes nofun), fun k => ?_⟩
    rw [hp.kept_eq nofun]
    exact hkept k

theorem stand_walk (text : String) (actions : List (Nat × Action)) :
    Stand text (walk text actions).1 (walk text actions).2 :=
  List.foldlRecOn (motive := fun w : Branches Cursor × Branches String => Stand text w.1 w.2) actions _
    ⟨standsAt_ofText text, fun _ => standsAt_ofText text⟩ fun _ h a _ => h.perform a.1 a.2

/-- **Whatever is done with cursors over a text**, each one stands where its branch has led; and whatever is done next
takes just what it answers from the cursor in use, and nothing from any other one. -/
theorem standsAt_walk (text : String) (actions : List (Nat × Action)) :
    let (b, t) := walk text actions
    StandsAt text t.current b.current ∧ (∀ slot, StandsAt text (t.kept slot) (b.kept slot)) ∧
      ∀ slot action, Performs b slot action (b.perform slot action).1 (b.perform slot action).2 :=
  ⟨(stand_walk text actions).1, (stand_walk text actions).2, performs _⟩

/-- A letter of two bytes is taken by itself, the rest of the name as a name, and the saved cursor is still before
it. -/
example :
    let (b, t) := walk "λx1+2" [(0, .takeChar), (3, .save), (0, .take .name), (0, .take .number), (0, .take .name)]
    (b.current.position, t.current, b.current.remaining) = (4, "λx1", "+2") ∧
      ((b.kept 3).position, t.kept 3, (b.kept 3).remaining) = (2, "λ", "x1+2") := by decide +kernel

end Cursor
end Calculator
