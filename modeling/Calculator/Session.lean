import Calculator.Evaluation
/-!
# Session — expressions that share their variables

A session has a store, a limit that never changes, and someone to ask, who may remember what was asked
before.  Sessions share nothing: a request to one of several is a request to that one alone.
-/
namespace Calculator

/-- A session whose counterpart remembers a `σ`. -/
structure Session (σ : Type) where
  /-- How the counterpart replies to a name. -/
  ask : String → StateM σ Reply
  /-- What the counterpart remembers. -/
  memory : σ
  limit : Nat := defaultLimit
  store : Store := .empty
  /-- The names asked for so far, in order. -/
  prompts : List String := []

/-- What a session can be asked to do or to show. -/
inductive Request where
  | evaluate (expression : String)
  | get (name : String)
  | contains (name : String)
  | size
  | isEmpty
  | bindings
  | prompts
  | limit
  deriving DecidableEq, Repr

/-- What a request is answered with. -/
inductive Answer where
  | evaluation (e : Evaluation)
  | value (found : Option Float)
  | flag (holds : Bool)
  | count (n : Nat)
  | bindings (all : Bindings)
  | names (all : List String)

namespace Session

variable {σ : Type}

/-- Evaluates an expression on the session's store; the bindings it makes stay. -/
def evaluate (s : Session σ) (expression : String) : Evaluation × Session σ :=
  let (e, memory) := (Calculator.evaluate s.ask s.limit s.store expression).run s.memory
  (e, { s with memory, store := e.store, prompts := s.prompts ++ e.prompts })

def serve (s : Session σ) : Request → Answer × Session σ
  | .evaluate expression =>
    let (e, next) := s.evaluate expression
    (.evaluation e, next)
  | .get name => (.value (s.store.get? name), s)
  | .contains name => (.flag (s.store.contains name), s)
  | .size => (.count s.store.size, s)
  | .isEmpty => (.flag s.store.isEmpty, s)
  | .bindings => (.bindings s.store.toList, s)
  | .prompts => (.names s.prompts, s)
  | .limit => (.count s.limit, s)

end Session

/-- A request to one of several sessions, counted from zero.  There is no answer where there is no such session. -/
def serveAt {σ : Type} (sessions : List (Session σ)) (index : Nat) (request : Request) :
    Option Answer × List (Session σ) :=
  match sessions[index]? with
  | none => (none, sessions)
  | some s =>
    let (answer, next) := s.serve request
    (some answer, sessions.set index next)

end Calculator
