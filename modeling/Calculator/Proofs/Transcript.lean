import Calculator.Console.Program
import Calculator.Proofs.Prompts
/-!
# Proofs.Transcript — an evaluation whose replies are lines

At a recorded terminal each prompt takes the next line of standard input, and after the last one it is told that there
are no more (`Console.takeReply`).  An evaluation there takes its lines in order, one for each prompt
(`Console.takes_of_evaluate`), and writes its prompts and one report (`Console.run_answer`).
-/
namespace Calculator

/-- **Whoever replies may remember more** than the replies depend on. -/
theorem Dialogue.run_image {σ τ : Type} {ask : String → StateM σ Reply} {ask' : String → StateM τ Reply} {f : σ → τ}
    (h : ∀ name memory, (ask' name).run (f memory) = (((ask name).run memory).1, f ((ask name).run memory).2))
    (d : Dialogue) (s : Store) (memory : σ) :
    (d.run ask' s).run (f memory) = (((d.run ask s).run memory).1, f ((d.run ask s).run memory).2) := by
  induction d generalizing s memory with
  | done outcome unread => rfl
  | lookup name unread proceed ih =>
    cases hs : s.get? name with
    | some value =>
      rw [run_of_ok (Store.run_resolve_known ask memory hs) rfl,
        run_of_ok (Store.run_resolve_known ask' (f memory) hs) rfl, ih]
      rfl
    | none =>
      have hrun := Store.run_resolve_asked ask memory hs
      have hrun' := Store.run_resolve_asked ask' (f memory) hs
      rw [h] at hrun'
      generalize ((ask name).run memory).1 = reply at hrun hrun'
      cases hr : Reply.value name reply with
      | error fault =>
        rw [Store.settle_of_error s hr] at hrun hrun'
        rw [run_of_error hrun rfl, run_of_error hrun' rfl]
      | ok value =>
        rw [Store.settle_of_ok s hr] at hrun hrun'
        rw [run_of_ok hrun rfl, run_of_ok hrun' rfl, ih]
        rfl

namespace Console

/-- What a line says when it is taken for a reply. -/
def Line.reply : Line → Reply
  | text content => .ok content
  | undecodable => .error undecodableText

/-- Someone who replies with one line after another, until there are no more. -/
def takeReply (_ : String) : StateM (List Line) Reply := modifyGet fun lines =>
  match lines with
  | [] => (.error closedText, [])
  | line :: rest => (line.reply, rest)

theorem run_takeReply_cons (name : String) (line : Line) (rest : List Line) :
    (takeReply name).run (line :: rest) = (line.reply, rest) := rfl

theorem run_takeReply_nil (name : String) : (takeReply name).run [] = (.error closedText, []) := rfl

theorem run_takeReply_closed : ∀ names : List String,
    (names.mapM takeReply).run [] = (List.replicate names.length (.error closedText), [])
  | [] => rfl
  | name :: names => run_mapM_cons (run_takeReply_nil name) (run_takeReply_closed names)

/-- Prompts take as many lines as they are, or all that there are. -/
theorem run_takeReply : ∀ (names : List String) (lines : List Line),
    (names.mapM takeReply).run lines =
      ((lines.take names.length).map Line.reply ++
        List.replicate (names.length - lines.length) (.error closedText), lines.drop names.length)
  | [], lines => by
    rw [List.length_nil, Nat.zero_sub]
    rfl
  | names, [] => by simpa using run_takeReply_closed names
  | name :: names, line :: lines => by
    rw [run_mapM_cons (run_takeReply_cons name line lines) (run_takeReply names lines)]
    simp

/-! ## The lines that an evaluation takes -/

/-- Whether an evaluation has taken these lines for the replies to its prompts, and these are left: each prompt has got
one line, except that the last one may have found none left. -/
def Takes (e : Evaluation) (replies left : List Line) : Prop :=
  e.asked.map Prod.snd = replies.map Line.reply ∨
    left = [] ∧ e.asked.map Prod.snd = replies.map Line.reply ++ [.error closedText]

/-- A reply that is missing is the last one. -/
theorem sub_le_one_of_exchange {s : Store} {e : Evaluation} (h : e.Exchange s) {replies : List Reply} {n : Nat}
    (hasked : e.asked.map Prod.snd = replies ++ List.replicate n (.error closedText)) : n ≤ 1 := by
  match n with
  | 0 | 1 => omega
  | n + 2 =>
    rw [List.replicate_succ, List.map_eq_append_iff] at hasked
    obtain ⟨before, more, hasked, -, hmore⟩ := hasked
    obtain ⟨p, after, rfl, hp, hafter⟩ := List.map_eq_cons_iff.1 hmore
    have hrefused : Prompt.value p = .error (.unresolved p.1 closedText) := by
      rw [Prompt.value, hp]
      rfl
    obtain ⟨rfl, -⟩ := h.refused before p after _ hasked hrefused
    cases hafter

/-- **An evaluation takes its lines in order**, one for each prompt. -/
theorem takes_of_evaluate {limit : Nat} {s : Store} {expression : String} {lines left : List Line} {e : Evaluation}
    (h : (evaluate takeReply limit s expression).run lines = (e, left)) :
    ∃ replies, lines = replies ++ left ∧ Takes e replies left := by
  let d := dialogueOf limit (withoutWhiteSpace expression)
  have hd : (d.run takeReply s).run lines = (e, left) := h
  have hx : e.Exchange s := by simpa only [hd] using (d.yields_run takeReply s lines).exchange
  have hrun : (e.prompts.mapM takeReply).run lines = (e.asked.map Prod.snd, left) := by
    simpa only [hd] using d.run_prompts takeReply s lines
  rw [run_takeReply] at hrun
  obtain ⟨hasked, hleft⟩ := Prod.mk.inj hrun
  refine ⟨lines.take e.prompts.length, by rw [← hleft, List.take_append_drop], ?_⟩
  rcases Nat.le_one_iff_eq_zero_or_eq_one.1 (sub_le_one_of_exchange hx hasked.symm) with hzero | hone
  · rw [hzero, List.replicate_zero, List.append_nil] at hasked
    exact .inl hasked.symm
  · rw [hone] at hasked
    exact .inr ⟨by rw [← hleft, List.drop_of_length_le (by omega)], hasked.symm⟩

/-! ## What is written meanwhile -/

/-- What an evaluation writes at a terminal: its prompts, and the report. -/
def transcript (e : Evaluation) : String := String.join (e.prompts.map promptText) ++ reportText e.outcome

def Progress.after (p : Progress) (e : Evaluation) : Progress := ⟨e.store, p.allWell && e.outcome.isOk⟩

theorem run_ask_recorded (files : Files) (name : String) (r : Recording) :
    ((recorded files).ask name).run r = (((takeReply name).run r.input).1,
      { r with input := ((takeReply name).run r.input).2, output := r.output ++ promptText name }) := by
  obtain ⟨input, output, complaints⟩ := r
  rcases input with _ | ⟨_ | _, rest⟩ <;> rfl

theorem run_prompts_recorded (files : Files) : ∀ (names : List String) (r : Recording),
    (names.mapM (recorded files).ask).run r = (((names.mapM takeReply).run r.input).1,
      { r with
        input := ((names.mapM takeReply).run r.input).2
        output := r.output ++ String.join (names.map promptText) })
  | [], r => by
    rw [List.map_nil, String.join_nil, String.append_empty]
    rfl
  | name :: names, r => by
    rcases htake : (takeReply name).run r.input with ⟨reply, rest⟩
    have hask := run_ask_recorded files name r
    rw [htake] at hask
    rcases htakes : (names.mapM takeReply).run rest with ⟨replies, left⟩
    have hprompts := run_prompts_recorded files names { r with input := rest, output := r.output ++ promptText name }
    rw [htakes] at hprompts
    rw [run_mapM_cons hask hprompts, run_mapM_cons htake htakes, List.map_cons, String.join_cons, String.append_assoc]

/-- Evaluated at a recorded terminal, an expression takes just the lines that it takes from one who only replies. -/
theorem run_evaluate_recorded (files : Files) {limit : Nat} {s : Store} {expression : String} {r : Recording}
    {e : Evaluation} {left : List Line} (h : (evaluate takeReply limit s expression).run r.input = (e, left)) :
    (evaluate (recorded files).ask limit s expression).run r =
      (e, { r with input := left, output := r.output ++ String.join (e.prompts.map promptText) }) := by
  let d := dialogueOf limit (withoutWhiteSpace expression)
  show (d.run (recorded files).ask s).run r = _
  have hask : ∀ name (r : Recording), (takeReply name).run r.input =
      ((((recorded files).ask name).run r).1, (((recorded files).ask name).run r).2.input) := fun name r => by
    rw [run_ask_recorded]
    rfl
  have himage := Dialogue.run_image hask d s r
  have hprompts := d.run_prompts (recorded files).ask s r
  rcases hrun : (d.run (recorded files).ask s).run r with ⟨e', r'⟩
  rw [hrun] at himage hprompts
  obtain ⟨rfl, rfl⟩ := Prod.mk.inj (h.symm.trans himage)
  rw [run_prompts_recorded] at hprompts
  dsimp only at hprompts
  obtain rfl := (Prod.mk.inj hprompts).2
  rfl

/-- **An expression is answered with its prompts and one report.** -/
theorem run_answer (files : Files) {limit : Nat} {p : Progress} {expression : String} {r : Recording} {e : Evaluation}
    {left : List Line} (h : (evaluate takeReply limit p.store expression).run r.input = (e, left)) :
    ((recorded files).answer limit p expression).run r =
      (p.after e, { r with input := left, output := r.output ++ transcript e }) := by
  rw [Terminal.answer, StateT.run_bind, run_evaluate_recorded files h, transcript, ← String.append_assoc]
  rfl

end Console
end Calculator
