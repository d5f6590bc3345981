import Calculator.Lookup
/-!
# Proofs.Resolution — the ways a lookup can end, whoever replies

A reply is worth a number or a fault, and that alone decides what a lookup does (`Reply.value`).  A lookup ends in one
of three ways (`Store.Resolves`): the name is bound; it is asked for and bound to what the reply is worth; or it is
asked for and nothing changes.  So stores only grow, and a lookup that has a value leaves the name bound to it.
-/
namespace Calculator

theorem Bindings.length_insert {name : String} (value : Float) : ∀ {bindings : Bindings},
    find? name bindings = none → (insert name value bindings).length = bindings.length + 1
  | [], _ => rfl
  | first :: rest, h => by
    have hne : name ≠ first.1 := fun heq => by simp [find?, heq] at h
    have hrest : find? name rest = none := by simpa [find?, hne] using h
    simp only [insert, if_neg hne]
    split
    · rfl
    · rw [List.length_cons, length_insert value hrest, List.length_cons]

instance decidableEqExcept {ε α : Type} [DecidableEq ε] [DecidableEq α] : DecidableEq (Except ε α)
  | .error a, .error b => decidable_of_iff (a = b) (by rw [Except.error.injEq])
  | .ok a, .ok b => decidable_of_iff (a = b) (by rw [Except.ok.injEq])
  | .error _, .ok _ => isFalse nofun
  | .ok _, .error _ => isFalse nofun

/-- What a reply is worth, as the value of a variable. -/
def Reply.value (name : String) : Reply → Except Fault Float
  | .error details => .error (.unresolved name details)
  | .ok text => Number.read text

namespace Store

/-- One store below another: what the first one binds the second one binds to the same value. -/
instance : LE Store := ⟨fun s t => ∀ name value, s.get? name = some value → t.get? name = some value⟩

theorem le_refl (s : Store) : s ≤ s := fun _ _ h => h

theorem le_trans {s t u : Store} (hst : s ≤ t) (htu : t ≤ u) : s ≤ u :=
  fun name value h => htu name value (hst name value h)

theorem le_insert {s : Store} {name : String} (value : Float) (h : s.get? name = none) : s ≤ s.insert name value := by
  intro other bound ho
  rw [get?_insert]
  by_cases hn : other = name
  · rw [hn, h] at ho
    cases ho
  · rw [if_neg hn]
    exact ho

theorem get?_insert_self (s : Store) (name : String) (value : Float) :
    (s.insert name value).get? name = some value := by
  rw [get?_insert, if_pos rfl]

theorem size_insert {s : Store} {name : String} (value : Float) (h : s.get? name = none) :
    (s.insert name value).size = s.size + 1 :=
  Bindings.length_insert value h

theorem settle_of_ok (s : Store) {name : String} {reply : Reply} {value : Float}
    (h : Reply.value name reply = .ok value) :
    s.settle name reply = ⟨.ok value, s.insert name value, .asked name reply⟩ := by
  cases reply with
  | error details => cases h
  | ok text =>
    unfold settle
    simp only [Reply.value] at h
    simp only [h]

theorem settle_of_error (s : Store) {name : String} {reply : Reply} {fault : Fault}
    (h : Reply.value name reply = .error fault) :
    s.settle name reply = ⟨.error fault, s, .asked name reply⟩ := by
  cases reply with
  | error details => cases h; rfl
  | ok text =>
    unfold settle
    simp only [Reply.value] at h
    simp only [h]

/-- How the lookup of a name can end. -/
inductive Resolves (s : Store) (name : String) : Resolution → Prop where
  | known {value : Float} (h : s.get? name = some value) : Resolves s name ⟨.ok value, s, .known name⟩
  | accepted {reply : Reply} {value : Float} (h : s.get? name = none) (hr : Reply.value name reply = .ok value) :
    Resolves s name ⟨.ok value, s.insert name value, .asked name reply⟩
  | refused {reply : Reply} {fault : Fault} (h : s.get? name = none) (hr : Reply.value name reply = .error fault) :
    Resolves s name ⟨.error fault, s, .asked name reply⟩

theorem resolves_settle {s : Store} {name : String} (reply : Reply) (h : s.get? name = none) :
    s.Resolves name (s.settle name reply) := by
  cases hr : Reply.value name reply with
  | error fault =>
    rw [settle_of_error s hr]
    exact .refused h hr
  | ok value =>
    rw [settle_of_ok s hr]
    exact .accepted h hr

section

variable {σ : Type} (ask : String → StateM σ Reply) {s : Store} {name : String} (memory : σ)

theorem run_resolve_known {value : Float} (h : s.get? name = some value) :
    (s.resolve ask name).run memory = (⟨.ok value, s, .known name⟩, memory) := by
  unfold resolve
  rw [h]
  rfl

theorem run_resolve_asked (h : s.get? name = none) :
    (s.resolve ask name).run memory = (s.settle name ((ask name).run memory).1, ((ask name).run memory).2) := by
  unfold resolve
  rw [h]
  rfl

end

/-- **A lookup ends in one of these ways**, whatever the one who is asked remembers and replies. -/
theorem resolves_resolve {σ : Type} (ask : String → StateM σ Reply) (s : Store) (name : String) (memory : σ) :
    s.Resolves name ((s.resolve ask name).run memory).1 := by
  cases h : s.get? name with
  | some value =>
    rw [run_resolve_known ask memory h]
    exact .known h
  | none =>
    rw [run_resolve_asked ask memory h]
    exact resolves_settle _ h

theorem resolves_of_run {σ : Type} {ask : String → StateM σ Reply} {s : Store} {name : String} {memory memory' : σ}
    {found : Resolution} (h : (s.resolve ask name).run memory = (found, memory')) : s.Resolves name found := by
  have hr := s.resolves_resolve ask name memory
  rw [h] at hr
  exact hr

namespace Resolves

variable {s : Store} {name : String} {found : Resolution}

theorem le (h : s.Resolves name found) : s ≤ found.store := by
  cases h with
  | known => exact le_refl s
  | accepted h hr => exact le_insert _ h
  | refused => exact le_refl s

theorem get?_of_ok (h : s.Resolves name found) {value : Float} (hv : found.value = .ok value) :
    found.store.get? name = some value := by
  cases h with
  | known h => cases hv; exact h
  | accepted h hr => cases hv; exact get?_insert_self s name _
  | refused h hr => cases hv

/-- A lookup has no value just when a reply is refused, and then nothing has changed. -/
theorem of_error (h : s.Resolves name found) {fault : Fault} (hv : found.value = .error fault) :
    ∃ reply, s.get? name = none ∧ Reply.value name reply = .error fault ∧
      found = ⟨.error fault, s, .asked name reply⟩ := by
  cases h with
  | known h | accepted h hr => cases hv
  | @refused reply _ h hr =>
    cases hv
    exact ⟨reply, h, hr, rfl⟩

theorem name_lookup (h : s.Resolves name found) : found.lookup.name = name := by
  cases h <;> rfl

end Resolves
end Store
end Calculator
