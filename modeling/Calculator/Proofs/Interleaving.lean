import Calculator.Session
/-!
# Proofs.Interleaving — sessions that are served in turns

Requests to several sessions come in any order.  What one session answers, and what becomes of it, depends on the
requests to this session alone (`Session.serveAll_interleaved`).
-/
namespace Calculator

variable {σ : Type}

/-- The requests one after another, each to the session it is addressed to: who answered what, and the sessions
afterwards. -/
def serveAll (sessions : List (Session σ)) : List (Nat × Request) → List (Nat × Option Answer) × List (Session σ)
  | [] => ([], sessions)
  | (index, request) :: rest =>
    let (answer, next) := serveAt sessions index request
    let (answers, last) := serveAll next rest
    ((index, answer) :: answers, last)

/-- What concerns one session. -/
def addressedTo {α : Type} (i : Nat) (l : List (Nat × α)) : List α := (l.filter (·.1 == i)).map Prod.snd

theorem addressedTo_cons_self {α : Type} (i : Nat) (a : α) (l : List (Nat × α)) :
    addressedTo i ((i, a) :: l) = a :: addressedTo i l := by simp [addressedTo]

theorem addressedTo_cons_of_ne {α : Type} {i index : Nat} (h : index ≠ i) (a : α) (l : List (Nat × α)) :
    addressedTo i ((index, a) :: l) = addressedTo i l := by simp [addressedTo, h]

namespace Session

/-- A session that is served alone. -/
def serveEach (s : Session σ) : List Request → List Answer × Session σ
  | [] => ([], s)
  | request :: rest =>
    let (answer, next) := s.serve request
    let (answers, last) := next.serveEach rest
    (answer :: answers, last)

theorem limit_serve (s : Session σ) (request : Request) : (s.serve request).2.limit = s.limit := by
  cases request <;> rfl

theorem limit_serveEach : ∀ (s : Session σ) (requests : List Request), (s.serveEach requests).2.limit = s.limit
  | _, [] => rfl
  | s, request :: rest => (limit_serveEach (s.serve request).2 rest).trans (s.limit_serve request)

end Session

section

variable {sessions : List (Session σ)} {i : Nat} {s : Session σ}

theorem serveAt_self (h : sessions[i]? = some s) (request : Request) :
    serveAt sessions i request = (some (s.serve request).1, sessions.set i (s.serve request).2) := by
  unfold serveAt
  rw [h]

theorem getElem?_serveAt_self (h : sessions[i]? = some s) (request : Request) :
    (serveAt sessions i request).2[i]? = some (s.serve request).2 := by
  obtain ⟨hlt, -⟩ := List.getElem?_eq_some_iff.1 h
  rw [serveAt_self h, List.getElem?_set_self hlt]

/-- A request to one session leaves every other one as it was. -/
theorem getElem?_serveAt_of_ne {index : Nat} (h : index ≠ i) (request : Request) :
    (serveAt sessions index request).2[i]? = sessions[i]? := by
  unfold serveAt
  split
  · rfl
  · exact List.getElem?_set_ne h

/-- The family after a request stands to the rest of them as the session alone does. -/
theorem serveAll_addressed : ∀ (requests : List (Nat × Request)) {sessions : List (Session σ)} {s : Session σ},
    sessions[i]? = some s →
      addressedTo i (serveAll sessions requests).1 = (s.serveEach (addressedTo i requests)).1.map some ∧
        (serveAll sessions requests).2[i]? = some (s.serveEach (addressedTo i requests)).2
  | [], _, _, h => ⟨rfl, h⟩
  | (index, request) :: rest, sessions, s, h => by
    by_cases hi : i = index
    · subst hi
      obtain ⟨hanswers, hlast⟩ := serveAll_addressed rest (getElem?_serveAt_self h request)
      rw [addressedTo_cons_self]
      refine ⟨?_, hlast⟩
      rw [serveAll, addressedTo_cons_self, hanswers, serveAt_self h]
      rfl
    · rw [addressedTo_cons_of_ne (Ne.symm hi), serveAll, addressedTo_cons_of_ne (Ne.symm hi)]
      exact serveAll_addressed rest ((getElem?_serveAt_of_ne (Ne.symm hi) request).trans h)

end

/-- **Sessions are isolated under any interleaving**: a session answers as if it were served alone, and is left with the
store, the memory and the prompts that it would be left with then; and its limit never changes. -/
theorem Session.serveAll_interleaved {sessions : List (Session σ)} {i : Nat} {s : Session σ}
    (h : sessions[i]? = some s) (requests : List (Nat × Request)) :
    addressedTo i (serveAll sessions requests).1 = (s.serveEach (addressedTo i requests)).1.map some ∧
      ∃ last, (serveAll sessions requests).2[i]? = some last ∧ last = (s.serveEach (addressedTo i requests)).2 ∧
        last.limit = s.limit := by
  obtain ⟨hanswers, hlast⟩ := serveAll_addressed requests h
  exact ⟨hanswers, _, hlast, rfl, s.limit_serveEach _⟩

/-- Both sessions have an x, and the second one is refused its first reply and may not open a parenthesis. -/
theorem Session.serveAll_interleaved_refused :
    let ask (first : Reply) : String → StateM Nat Reply := fun _ =>
      modifyGet fun asked => (if asked = 0 then first else .ok "4", asked + 1)
    let sessions : List (Session Nat) := [{ ask := ask (.ok "1"), memory := 0 },
      { ask := ask (.error "busy"), memory := 0, limit := 0 }]
    let requests : List (Nat × Request) := [(1, .evaluate "x"), (0, .evaluate "x"), (1, .get "x"), (0, .evaluate "x+y"),
      (1, .evaluate "x"), (0, .prompts), (1, .evaluate "(x)"), (1, .limit)]
    let s : Session Nat := { ask := ask (.error "busy"), memory := 0, limit := 0 }
    (sessions[1]? = some s ∧ (serveAll sessions requests).2.map (·.prompts) = [["x", "y"], ["x", "x"]]) ∧
      addressedTo 1 (serveAll sessions requests).1 = (s.serveEach (addressedTo 1 requests)).1.map some ∧
        ∃ last, (serveAll sessions requests).2[1]? = some last ∧ last = (s.serveEach (addressedTo 1 requests)).2 ∧
          last.limit = 0 := by
  intro ask sessions requests s
  have h : sessions[1]? = some s := rfl
  exact ⟨⟨h, by decide +kernel⟩, serveAll_interleaved h requests⟩

end Calculator
