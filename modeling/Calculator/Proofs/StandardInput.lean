import Calculator.Proofs.History
import Calculator.Proofs.Transcript
/-!
# Proofs.StandardInput — standard input is dealt out exactly once

A console and the prompts of its evaluations take their lines from one standard input.  What the console has done with
its lines is a list of entries; `Deals` has one rule for each thing that a turn can do, and every run is among them
(`Terminal.run_turns`).  What holds of every run is `Dealing`, for the whole program `run_console`.
-/
namespace Calculator
namespace Console

/-- What a console does with lines it takes. -/
inductive Entry where
  /-- A line that is skipped. -/
  | blank (line : String)
  /-- A line that should have been an expression and is no text. -/
  | unreadable
  /-- A line that is evaluated, and the lines that its prompts take. -/
  | evaluated (expression : String) (replies : List Line) (e : Evaluation)

namespace Entry

def lines : Entry → List Line
  | blank line => [.text line]
  | unreadable => [.undecodable]
  | evaluated expression replies _ => .text expression :: replies

def output : Entry → String
  | blank _ | unreadable => ""
  | evaluated _ _ e => transcript e

def complaints : Entry → String
  | blank _ | evaluated .. => ""
  | unreadable => unreadableInputText

def succeeded : Entry → Bool
  | blank _ => true
  | unreadable => false
  | evaluated _ _ e => e.outcome.isOk

def storeAfter (s : Store) : Entry → Store
  | blank _ | unreadable => s
  | evaluated _ _ e => e.store

end Entry

def taken (entries : List Entry) : List Line := entries.flatMap Entry.lines

def written (entries : List Entry) : String := String.join (entries.map Entry.output)

def complained (entries : List Entry) : String := String.join (entries.map Entry.complaints)

/-- The bindings after some entries. -/
def storeAfter (s : Store) (entries : List Entry) : Store := entries.foldl Entry.storeAfter s

/-! ## What a console can do with its lines -/

/-- The entries of a console that starts from a store, and the lines that it leaves. -/
inductive Deals (limit : Nat) (interactive : Bool) : Store → List Line → List Entry → List Line → Prop where
  | closed {s : Store} : Deals limit interactive s [] [] []
  | unreadable {s : Store} {left : List Line} :
    Deals limit interactive s (.undecodable :: left) [.unreadable] left
  | blank {s : Store} {line : String} {lines left : List Line} {entries : List Entry} (hi : interactive = true)
    (hb : isBlank line = true) (h : Deals limit interactive s lines entries left) :
    Deals limit interactive s (.text line :: lines) (.blank line :: entries) left
  /-- The one expression of a console that is not interactive. -/
  | only {s : Store} {expression : String} {replies left : List Line} {e : Evaluation} (hi : interactive = false)
    (he : (evaluate takeReply limit s expression).run (replies ++ left) = (e, left)) (ht : Takes e replies left) :
    Deals limit interactive s (.text expression :: (replies ++ left)) [.evaluated expression replies e] left
  | next {s : Store} {expression : String} {replies lines left : List Line} {e : Evaluation} {entries : List Entry}
    (hi : interactive = true) (hb : isBlank expression = false)
    (he : (evaluate takeReply limit s expression).run (replies ++ lines) = (e, lines)) (ht : Takes e replies lines)
    (h : Deals limit interactive e.store lines entries left) :
    Deals limit interactive s (.text expression :: (replies ++ lines)) (.evaluated expression replies e :: entries) left

/-- The progress that entries make. -/
def Progress.past (p : Progress) (entries : List Entry) : Progress :=
  ⟨storeAfter p.store entries, p.allWell && entries.all Entry.succeeded⟩

/-- The recording once the entries are written and these lines are left. -/
def Recording.past (r : Recording) (entries : List Entry) (left : List Line) : Recording :=
  ⟨left, r.output ++ written entries, r.complaints ++ complained entries⟩

theorem Progress.past_nil (p : Progress) : p.past [] = p := by
  rw [past, List.all_nil, Bool.and_true]
  rfl

theorem Progress.past_cons (p : Progress) (entry : Entry) (entries : List Entry) :
    p.past (entry :: entries) = (p.past [entry]).past entries := by
  simp [past, storeAfter, Bool.and_assoc]

theorem Recording.past_nil (r : Recording) (left : List Line) : r.past [] left = { r with input := left } := by
  simp [past, written, complained]

theorem Recording.past_cons (r : Recording) (entry : Entry) (entries : List Entry) (rest left : List Line) :
    r.past (entry :: entries) left = (r.past [entry] rest).past entries left := by
  simp [past, written, complained, String.append_assoc]

theorem Progress.past_blank (p : Progress) (line : String) : p.past [.blank line] = p := by
  simp [past, storeAfter, Entry.storeAfter, Entry.succeeded]

theorem Progress.past_unreadable (p : Progress) : p.past [.unreadable] = { p with allWell := false } := by
  simp [past, storeAfter, Entry.storeAfter, Entry.succeeded]

theorem Progress.past_evaluated (p : Progress) (expression : String) (replies : List Line) (e : Evaluation) :
    p.past [.evaluated expression replies e] = p.after e := by
  simp [past, storeAfter, Entry.storeAfter, Entry.succeeded, after]

theorem Recording.past_singleton (r : Recording) (entry : Entry) (left : List Line) :
    r.past [entry] left = ⟨left, r.output ++ entry.output, r.complaints ++ entry.complaints⟩ := by
  simp [past, written, complained]

theorem run_answer_past (files : Files) {limit : Nat} {p : Progress} {expression : String} {r : Recording}
    {left : List Line} {e : Evaluation} (replies : List Line)
    (he : (evaluate takeReply limit p.store expression).run r.input = (e, left)) :
    ((recorded files).answer limit p expression).run r =
      (p.past [.evaluated expression replies e], r.past [.evaluated expression replies e] left) := by
  rw [run_answer files he, Progress.past_evaluated, Recording.past_singleton, Entry.output, Entry.complaints,
    String.append_empty]

namespace Terminal

section

variable (files : Files) (limit : Nat) (interactive : Bool) (p : Progress) (r : Recording)

theorem run_turn_closed (h : r.input = []) :
    ((recorded files).turn limit interactive p).run r = ((p, false), r) := by
  obtain ⟨input, output, complaints⟩ := r
  cases h
  rfl

theorem run_turn_undecodable {rest : List Line} (h : r.input = .undecodable :: rest) :
    ((recorded files).turn limit interactive p).run r =
      ((p.past [.unreadable], false), r.past [.unreadable] rest) := by
  obtain ⟨input, output, complaints⟩ := r
  cases h
  rw [Progress.past_unreadable, Recording.past_singleton, Entry.output, String.append_empty]
  rfl

theorem run_turn_text {expression : String} {rest : List Line} (h : r.input = .text expression :: rest) :
    ((recorded files).turn limit interactive p).run r =
      if interactive && isBlank expression then ((p, true), { r with input := rest })
      else
        let (p, r) := ((recorded files).answer limit p expression).run { r with input := rest }
        ((p, interactive), r) := by
  obtain ⟨input, output, complaints⟩ := r
  cases h
  rw [turn, StateT.run_bind]
  show ((if (interactive && isBlank expression) = true then _ else _ : StateM Recording _).run _) = _
  split
  · rfl
  · rfl

theorem run_turn_blank {line : String} {rest : List Line} (h : r.input = .text line :: rest)
    (hskip : (interactive && isBlank line) = true) :
    ((recorded files).turn limit interactive p).run r = ((p.past [.blank line], true), r.past [.blank line] rest) := by
  rw [run_turn_text files limit interactive p r h, if_pos hskip, Progress.past_blank, Recording.past_singleton,
    Entry.output, Entry.complaints, String.append_empty, String.append_empty]

theorem run_turn_evaluated {expression : String} {replies rest : List Line} {e : Evaluation}
    (h : r.input = .text expression :: (replies ++ rest)) (hskip : (interactive && isBlank expression) = false)
    (he : (evaluate takeReply limit p.store expression).run (replies ++ rest) = (e, rest)) :
    ((recorded files).turn limit interactive p).run r =
      ((p.past [.evaluated expression replies e], interactive), r.past [.evaluated expression replies e] rest) := by
  rw [run_turn_text files limit interactive p r h, if_neg (Bool.eq_false_iff.1 hskip),
    run_answer_past files replies he]
  rfl

variable {files limit interactive p r} {p' : Progress} {r' : Recording}

theorem run_turns_of_last (most : Nat) (h : ((recorded files).turn limit interactive p).run r = ((p', false), r')) :
    ((recorded files).turns limit interactive (most + 1) p).run r = (p', r') := by
  rw [turns, StateT.run_bind, h]
  rfl

theorem run_turns_of_more (most : Nat) (h : ((recorded files).turn limit interactive p).run r = ((p', true), r')) :
    ((recorded files).turns limit interactive (most + 1) p).run r =
      ((recorded files).turns limit interactive most p').run r' := by
  rw [turns, StateT.run_bind, h]
  rfl

end

/-- **Every run of a console deals with its lines so**, if only it may take one turn more than there are lines. -/
theorem run_turns (files : Files) (limit : Nat) (interactive : Bool) :
    ∀ (most : Nat) (p : Progress) (r : Recording), r.input.length < most → ∃ entries left,
      Deals limit interactive p.store r.input entries left ∧
        ((recorded files).turns limit interactive most p).run r = (p.past entries, r.past entries left)
  | most + 1, p, r, h => by
    rcases hinput : r.input with _ | ⟨line, rest⟩
    · refine ⟨[], [], .closed, ?_⟩
      rw [run_turns_of_last most (run_turn_closed files limit interactive p r hinput), Progress.past_nil,
        Recording.past_nil, ← hinput]
    rw [hinput, List.length_cons] at h
    cases line with
    | undecodable =>
      exact ⟨[.unreadable], rest, .unreadable,
        run_turns_of_last most (run_turn_undecodable files limit interactive p r hinput)⟩
    | text expression =>
      cases hskip : interactive && isBlank expression with
      | true =>
        obtain ⟨hi, hb⟩ := (Bool.and_eq_true _ _).mp hskip
        have hturn := run_turn_blank files limit interactive p r hinput hskip
        obtain ⟨entries, left, hdeals, hrun⟩ := run_turns files limit interactive most (p.past [.blank expression])
          (r.past [.blank expression] rest) (Nat.lt_of_succ_lt_succ h)
        refine ⟨.blank expression :: entries, left, .blank hi hb hdeals, ?_⟩
        rw [run_turns_of_more most hturn, hrun, ← Progress.past_cons, ← Recording.past_cons]
      | false =>
        rcases he : (evaluate takeReply limit p.store expression).run rest with ⟨e, unused⟩
        obtain ⟨replies, rfl, ht⟩ := takes_of_evaluate he
        have hturn := run_turn_evaluated files limit interactive p r hinput hskip he
        cases interactive with
        | false =>
          exact ⟨[.evaluated expression replies e], unused, .only rfl he ht, run_turns_of_last most hturn⟩
        | true =>
          -- the prompts may have taken lines too, so the turns that are left more than suffice
          have hless : unused.length < most := by
            rw [List.length_append] at h
            omega
          obtain ⟨entries, left, hdeals, hrun⟩ := run_turns files limit true most
            (p.past [.evaluated expression replies e]) (r.past [.evaluated expression replies e] unused) hless
          refine ⟨.evaluated expression replies e :: entries, left, .next rfl hskip he ht hdeals, ?_⟩
          rw [run_turns_of_more most hturn, hrun, ← Progress.past_cons, ← Recording.past_cons]

end Terminal

/-! ## What holds of all that a console does -/

namespace Deals

variable {limit : Nat} {interactive : Bool} {s : Store} {lines left : List Line} {entries : List Entry}

theorem lines_eq (h : Deals limit interactive s lines entries left) : lines = taken entries ++ left := by
  induction h with
  | closed | unreadable => rfl
  | blank hi hb h ih => exact congrArg _ ih
  | only hi he ht => simp [taken, Entry.lines]
  | next hi hb he ht h ih =>
    rw [ih]
    simp [taken, Entry.lines]

/-- From each entry on, the console deals with the lines that are left as if it had just started there. -/
theorem of_append {entry : Entry} {after : List Entry} : ∀ (before : List Entry) {s : Store} {lines : List Line},
    Deals limit interactive s lines (before ++ entry :: after) left →
      ∃ rest, Deals limit interactive (storeAfter s before) rest (entry :: after) left
  | [], _, lines, h => ⟨lines, h⟩
  | first :: before, s, lines, h => by
    rcases hentries : before ++ entry :: after with _ | ⟨second, more⟩
    · simp at hentries
    rw [List.cons_append, hentries] at h
    cases h with
    | blank hi hb h => exact of_append before (hentries ▸ h)
    | next hi hb he ht h => exact of_append before (hentries ▸ h)

theorem evaluated {expression : String} {replies : List Line} {e : Evaluation} {after : List Entry}
    (h : Deals limit interactive s lines (.evaluated expression replies e :: after) left) :
    (interactive = true → isBlank expression = false) ∧ Takes e replies (taken after ++ left) ∧
      (evaluate takeReply limit s expression).run (replies ++ (taken after ++ left)) = (e, taken after ++ left) := by
  cases h with
  | only hi he ht => exact ⟨fun h => (by cases hi.symm.trans h), ht, he⟩
  | next hi hb he ht h =>
    rw [← h.lines_eq]
    exact ⟨fun _ => hb, ht, he⟩

end Deals

/-! ## From the bytes to the exit code -/

/-- Whether these are lines: each one ends in its only line feed, which the last one may lack. -/
def AreLines (pieces : List (List UInt8)) : Prop :=
  ∀ before piece after, pieces = before ++ piece :: after →
    ∃ front last, piece = front ++ [last] ∧ 10 ∉ front ∧ (after ≠ [] → last = 10)

theorem exists_concat_of_cutAfter {α : Type} {ends : α → Bool} {after : List (List α)} :
    ∀ (l : List α) (before : List (List α)) (piece : List α), cutAfter ends l = before ++ piece :: after →
      ∃ front last, piece = front ++ [last] ∧ (∀ a ∈ front, ends a = false) ∧ (after ≠ [] → ends last = true)
  | [], before, piece, h => by simp [cutAfter] at h
  | a :: rest, before, piece, h => by
    have ih := @exists_concat_of_cutAfter α ends after rest
    cases ha : ends a with
    | true =>
      rw [cutAfter, if_pos ha] at h
      cases before with
      | nil =>
        cases h
        exact ⟨[], a, rfl, by simp, fun _ => ha⟩
      | cons first before => exact ih before piece (List.cons.inj h).2
    | false =>
      rw [cutAfter, if_neg (Bool.eq_false_iff.1 ha)] at h
      rcases hcut : cutAfter ends rest with _ | ⟨first, pieces⟩
      · simp only [hcut] at h
        cases before with
        | nil =>
          cases h
          exact ⟨[], a, rfl, by simp, fun hne => absurd rfl hne⟩
        | cons first before => simp at h
      · simp only [hcut] at h
        cases before with
        | nil =>
          cases h
          obtain ⟨front, last, rfl, hfront, hlast⟩ := ih [] first hcut
          exact ⟨a :: front, last, rfl, List.forall_mem_cons.2 ⟨ha, hfront⟩, hlast⟩
        | cons _ before => exact ih (first :: before) piece (hcut.trans (congrArg _ (List.cons.inj h).2))

theorem areLines_cutAfter (bytes : List UInt8) : AreLines (cutAfter (· == 10) bytes) := by
  intro before piece after h
  obtain ⟨front, last, rfl, hfront, hlast⟩ := exists_concat_of_cutAfter bytes before piece h
  exact ⟨front, last, rfl, fun hmem => by simpa using hfront 10 hmem, fun hne => by simpa using hlast hne⟩

def listing (s : Store) : String := String.join (s.toList.map bindingText)

theorem run_bind_of_run {σ α β : Type} {x : StateM σ α} {f : α → StateM σ β} {s s' : σ} {a : α}
    (h : x.run s = (a, s')) : (x >>= f).run s = (f a).run s' := by
  rw [StateT.run_bind, h]
  rfl

theorem run_forM_write (files : Files) : ∀ (bindings : List (String × Float)) (r : Recording),
    (bindings.forM fun binding => (recorded files).write (bindingText binding)).run r =
      ((), { r with output := r.output ++ String.join (bindings.map bindingText) })
  | [], r => by
    rw [List.map_nil, String.join_nil, String.append_empty]
    rfl
  | binding :: bindings, r => by
    rw [List.forM, StateT.run_bind, List.map_cons, String.join_cons, ← String.append_assoc]
    exact run_forM_write files bindings _

/-- A run ends with the listing of its bindings, if that is asked for, and its exit code. -/
theorem run_ending (files : Files) (showVariables : Bool) (p : Progress) (r : Recording) :
    (if showVariables = true then do
        p.store.toList.forM fun binding => (recorded files).write (bindingText binding)
        pure (if p.allWell then 0 else 1)
      else pure (if p.allWell then 0 else 1) : StateM Recording Nat).run r =
        (if p.allWell then 0 else 1,
          { r with output := r.output ++ if showVariables then listing p.store else "" }) := by
  cases showVariables with
  | false =>
    rw [if_neg Bool.false_ne_true, if_neg Bool.false_ne_true, String.append_empty]
    rfl
  | true => exact run_bind_of_run (run_forM_write files p.store.toList r)

theorem runRecorded_of_console {arguments : List String} {interactive : Bool} {limit : Nat} {showVariables : Bool}
    (h : Arguments.read arguments = .calculate ⟨.console interactive, limit, showVariables⟩) (files : Files)
    {lines : List Line} {p : Progress} {r : Recording}
    (hrun : ((recorded files).turns limit interactive (lines.length + 1) {}).run ⟨lines, greeting, ""⟩ = (p, r)) :
    runRecorded arguments files lines = (if p.allWell then 0 else 1,
      { r with output := r.output ++ if showVariables then listing p.store else "" }) := by
  have hwrite : ((recorded files).write greeting).run ⟨lines, "", ""⟩ = ((), ⟨lines, greeting, ""⟩) := rfl
  have hprogress : (some <$> (recorded files).turns limit interactive (lines.length + 1) {}).run
      ⟨lines, greeting, ""⟩ = (some p, r) := by
    rw [StateT.run_map]
    exact congrArg (fun x : Progress × Recording => (some x.1, x.2)) hrun
  simp only [runRecorded, Terminal.run, h, Terminal.calculate]
  exact (run_bind_of_run hwrite).trans ((run_bind_of_run hprogress).trans (run_ending files showVariables p r))

end Console
end Calculator
