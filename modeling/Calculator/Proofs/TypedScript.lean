import Calculator.Proofs.TextLines
/-!
# Proofs.TypedScript — a script that is typed at the console

The prompts of a script take their replies from standard input.  When its lines are typed at an interactive console
instead, each one followed by the replies to its prompts, the console says the same as the script does, after its
greeting, and has the same exit code (`Console.run_typed`).
-/
namespace Calculator

/-- A name that is not bound is asked for. -/
theorem Dialogue.prompts_of_unbound {σ : Type} (ask : String → StateM σ Reply) {name : String} (unread : List Char)
    (proceed : Float → Dialogue) {s : Store} (h : s.get? name = none) (memory : σ) :
    ∃ names, (((lookup name unread proceed).run ask s).run memory).1.prompts = name :: names := by
  have hrun := Store.run_resolve_asked ask memory h
  cases hr : Reply.value name ((ask name).run memory).1 with
  | error fault =>
    rw [Store.settle_of_error s hr] at hrun
    exact ⟨[], by rw [run_of_error hrun rfl]; rfl⟩
  | ok value =>
    rw [Store.settle_of_ok s hr] at hrun
    exact ⟨_, by rw [run_of_ok hrun rfl]; rfl⟩

/-- An evaluation that has a line for each prompt does not depend on the lines after these. -/
theorem Dialogue.run_takeReply_append {d : Dialogue} {s : Store} {replies left : List Console.Line} {e : Evaluation}
    (h : (d.run Console.takeReply s).run (replies ++ left) = (e, left)) (hlen : e.prompts.length = replies.length)
    (rest : List Console.Line) : (d.run Console.takeReply s).run (replies ++ rest) = (e, rest) := by
  induction d generalizing s replies e with
  | done outcome unread =>
    obtain ⟨rfl, -⟩ := Prod.mk.inj h
    obtain rfl : replies = [] := List.length_eq_zero_iff.1 hlen.symm
    rfl
  | lookup name unread proceed ih =>
    cases hs : s.get? name with
    | some value =>
      rw [run_of_ok (Store.run_resolve_known _ _ hs) rfl] at h ⊢
      rcases hrun : ((proceed value).run Console.takeReply s).run (replies ++ left) with ⟨e', last⟩
      rw [hrun] at h
      obtain ⟨rfl, rfl⟩ := Prod.mk.inj h
      rw [ih value hrun hlen]
    | none =>
      cases replies with
      | nil =>
        obtain ⟨names, hnames⟩ := prompts_of_unbound Console.takeReply unread proceed hs ([] ++ left)
        rw [h, List.length_eq_zero_iff.1 hlen] at hnames
        cases hnames
      | cons line replies =>
        have hask (lines : List Console.Line) := Store.run_resolve_asked Console.takeReply (line :: lines) hs
        simp only [Console.run_takeReply_cons] at hask
        cases hr : Reply.value name line.reply with
        | error fault =>
          rw [Store.settle_of_error s hr] at hask
          rw [List.cons_append, run_of_error (hask _) rfl] at h ⊢
          obtain ⟨rfl, hleft⟩ := Prod.mk.inj h
          obtain rfl : replies = [] := List.length_eq_zero_iff.1 (Nat.succ.inj hlen).symm
          rfl
        | ok value =>
          rw [Store.settle_of_ok s hr] at hask
          rw [List.cons_append, run_of_ok (hask _) rfl] at h ⊢
          rcases hrun : ((proceed value).run Console.takeReply (s.insert name value)).run (replies ++ left)
            with ⟨e', last⟩
          rw [hrun] at h
          obtain ⟨rfl, rfl⟩ := Prod.mk.inj h
          rw [ih value hrun (Nat.succ.inj hlen)]

namespace Console

theorem withoutWhiteSpace_append_lineFeed (line : String) :
    withoutWhiteSpace (line ++ "\n") = withoutWhiteSpace line := by
  rw [withoutWhiteSpace, String.toList_append, List.filter_append]
  exact congrArg String.ofList (List.append_nil _)

theorem isBlank_append_lineFeed (line : String) : isBlank (line ++ "\n") = isBlank line := by
  rw [isBlank, String.toList_append, List.all_append]
  exact Bool.and_true _

theorem evaluate_append_lineFeed {m : Type → Type} [Monad m] (ask : String → m Reply) (limit : Nat) (s : Store)
    (line : String) : evaluate ask limit s (line ++ "\n") = evaluate ask limit s line := by
  rw [evaluate, withoutWhiteSpace_append_lineFeed, evaluate]

/-! ## What becomes of the lines of a script -/

/-- What is done with each line of a script, and the lines of standard input that its prompts take. -/
def scriptEntries (limit : Nat) : Store → List String → List Line → List Entry
  | _, [], _ => []
  | s, line :: rest, input =>
    if isBlank line then .blank line :: scriptEntries limit s rest input
    else
      let (e, left) := (evaluate takeReply limit s line).run input
      .evaluated line (input.take (input.length - left.length)) e :: scriptEntries limit e.store rest left

namespace Entry

def replies : Entry → List Line
  | blank _ | unreadable => []
  | evaluated _ replies _ => replies

/-- Whether each prompt has got a line. -/
def answered : Entry → Bool
  | blank _ | unreadable => true
  | evaluated _ replies e => e.prompts.length == replies.length

/-- The lines that are typed for a line of a script: itself, and the replies to its prompts. -/
def typed : Entry → List Line
  | blank line => [.text (line ++ "\n")]
  | unreadable => []
  | evaluated line replies _ => .text (line ++ "\n") :: replies

end Entry

def Line.content : Line → String
  | text content => content
  | undecodable => ""

section

variable {limit : Nat} {s : Store} {line : String} {rest : List String} {input : List Line}

theorem scriptEntries_blank (h : isBlank line = true) :
    scriptEntries limit s (line :: rest) input = .blank line :: scriptEntries limit s rest input := by
  rw [scriptEntries, if_pos h]

theorem scriptEntries_evaluated {replies left : List Line} {e : Evaluation} (h : isBlank line = false)
    (he : (evaluate takeReply limit s line).run (replies ++ left) = (e, left)) :
    scriptEntries limit s (line :: rest) (replies ++ left) =
      .evaluated line replies e :: scriptEntries limit e.store rest left := by
  rw [scriptEntries, if_neg (Bool.eq_false_iff.1 h), he]
  simp

theorem Recording.past_blank (r : Recording) (line : String) : r.past [.blank line] r.input = r := by
  rw [past_singleton, Entry.output, Entry.complaints, String.append_empty, String.append_empty]

theorem past_cons (p : Progress) (r : Recording) (entry : Entry) (entries : List Entry) (rest left : List Line) :
    ((p.past [entry]).past entries, (r.past [entry] rest).past entries left) =
      (p.past (entry :: entries), r.past (entry :: entries) left) :=
  Prod.ext (p.past_cons entry entries).symm (r.past_cons entry entries rest left).symm

end

/-- **A script deals with its lines so**, and leaves what its prompts do not take. -/
theorem run_answerLines (files : Files) (limit : Nat) : ∀ (lines : List String) (p : Progress) (r : Recording), ∃ left,
    r.input = (scriptEntries limit p.store lines r.input).flatMap Entry.replies ++ left ∧
      ((lines.filter fun line => !isBlank line).foldlM ((recorded files).answer limit) p).run r =
        (p.past (scriptEntries limit p.store lines r.input), r.past (scriptEntries limit p.store lines r.input) left)
  | [], p, r => ⟨r.input, rfl, by rw [scriptEntries, Progress.past_nil, Recording.past_nil]; rfl⟩
  | line :: lines, p, r => by
    cases hb : isBlank line with
    | true =>
      obtain ⟨left, hinput, hrun⟩ := run_answerLines files limit lines p r
      refine ⟨left, by rw [scriptEntries_blank hb]; exact hinput, ?_⟩
      rw [List.filter_cons_of_neg (by simp [hb]), hrun, scriptEntries_blank hb, ← past_cons p r _ _ r.input,
        Progress.past_blank, Recording.past_blank]
    | false =>
      rcases he : (evaluate takeReply limit p.store line).run r.input with ⟨e, unused⟩
      obtain ⟨replies, hreplies, -⟩ := takes_of_evaluate he
      have hentries : scriptEntries limit p.store (line :: lines) r.input =
          .evaluated line replies e :: scriptEntries limit e.store lines unused := by
        rw [hreplies] at he ⊢
        exact scriptEntries_evaluated hb he
      obtain ⟨left, hinput, hrun⟩ := run_answerLines files limit lines (p.past [.evaluated line replies e])
        (r.past [.evaluated line replies e] unused)
      rw [List.filter_cons_of_pos (by simp [hb]), List.foldlM_cons, StateT.run_bind, run_answer_past files replies he,
        hentries]
      refine ⟨left, ?_, hrun.trans (past_cons p r _ _ unused left)⟩
      rw [List.flatMap_cons, List.append_assoc]
      exact hreplies.trans (congrArg (replies ++ ·) hinput)

/-! ## The same lines, typed -/

/-- **A console deals with the lines of a script so**, if they are typed with the replies to their prompts. -/
theorem run_turns_typed (files : Files) (limit : Nat) : ∀ (lines : List String) (input : List Line) (most : Nat)
    (p : Progress) (r : Recording),
    (scriptEntries limit p.store lines input).all Entry.answered = true →
    r.input = (scriptEntries limit p.store lines input).flatMap Entry.typed → r.input.length < most →
      ((recorded files).turns limit true most p).run r =
        (p.past (scriptEntries limit p.store lines input), r.past (scriptEntries limit p.store lines input) [])
  | [], input, most + 1, p, r, _, hinput, _ => by
    have hinput : r.input = [] := hinput
    rw [Terminal.run_turns_of_last most (Terminal.run_turn_closed files limit true p r hinput), scriptEntries,
      Progress.past_nil, Recording.past_nil, ← hinput]
  | line :: lines, input, most + 1, p, r, hanswered, hinput, hmost => by
    cases hb : isBlank line with
    | true =>
      rw [scriptEntries_blank hb] at hanswered hinput ⊢
      let typed := (scriptEntries limit p.store lines input).flatMap Entry.typed
      have hturn := Terminal.run_turn_blank files limit true p r hinput ((isBlank_append_lineFeed line).trans hb)
      have hless : typed.length < most := by
        rw [hinput] at hmost
        exact Nat.lt_of_succ_lt_succ hmost
      have hrun := run_turns_typed files limit lines input most (p.past [.blank line]) (r.past [.blank line] typed)
        hanswered rfl hless
      exact (Terminal.run_turns_of_more most hturn).trans (hrun.trans (past_cons p r _ _ typed []))
    | false =>
      rcases he : (evaluate takeReply limit p.store line).run input with ⟨e, unused⟩
      obtain ⟨replies, rfl, -⟩ := takes_of_evaluate he
      rw [scriptEntries_evaluated hb he] at hanswered hinput ⊢
      obtain ⟨hall, hanswered⟩ := (Bool.and_eq_true _ _).mp hanswered
      let typed := (scriptEntries limit e.store lines unused).flatMap Entry.typed
      -- the prompts get the same lines, whatever comes after them
      have he' : (evaluate takeReply limit p.store (line ++ "\n")).run (replies ++ typed) = (e, typed) := by
        rw [evaluate_append_lineFeed]
        exact Dialogue.run_takeReply_append he (beq_iff_eq.1 hall) typed
      have hturn := Terminal.run_turn_evaluated files limit true p r hinput
        ((isBlank_append_lineFeed line).trans hb) he'
      have hless : typed.length < most := by
        have hlen : r.input.length = replies.length + typed.length + 1 := by
          rw [hinput, List.flatMap_cons, Entry.typed, List.cons_append, List.length_cons, List.length_append]
        omega
      have hrun := run_turns_typed files limit lines unused most (p.past [.evaluated line replies e])
        (r.past [.evaluated line replies e] typed) hanswered rfl hless
      exact (Terminal.run_turns_of_more most hturn).trans (hrun.trans (past_cons p r _ _ typed []))

/-! ## Standard input as text -/

/-- A line that is text and has its line feed. -/
def Line.IsWhole (l : Line) : Prop := ∃ chars, l = .text (String.ofList chars) ∧ IsLine chars

theorem Line.isWhole_of_mem_allOfBytes {text : String} (h : text = "" ∨ text.toList.getLast? = some '\n') :
    ∀ l ∈ Line.allOfBytes text.toUTF8, l.IsWhole := by
  intro l hl
  rw [allOfBytes_toUTF8] at hl
  obtain ⟨piece, hpiece, rfl⟩ := List.mem_map.1 hl
  exact ⟨piece, rfl, isLine_of_mem_cutAfter (h.imp_left (congrArg String.toList)) piece hpiece⟩

theorem Line.isWhole_append_lineFeed {line : String} (h : '\n' ∉ line.toList) : (text (line ++ "\n")).IsWhole :=
  ⟨line.toList ++ ['\n'], by rw [String.ofList_append, String.ofList_toList], line.toList, rfl, h⟩

/-- Put together, whole lines are cut into themselves again. -/
theorem allOfBytes_join {lines : List Line} (h : ∀ l ∈ lines, l.IsWhole) :
    Line.allOfBytes (String.join (lines.map Line.content)).toUTF8 = lines := by
  have hpieces : ∀ piece ∈ lines.map (·.content.toList), IsLine piece := by
    intro piece hpiece
    obtain ⟨l, hl, rfl⟩ := List.mem_map.1 hpiece
    obtain ⟨chars, rfl, hchars⟩ := h l hl
    exact String.toList_ofList.symm ▸ hchars
  have hlist : (String.join (lines.map Line.content)).toList = (lines.map (·.content.toList)).flatten := by
    simp [← List.flatMap_def, List.flatMap_map]
  rw [allOfBytes_toUTF8, hlist, cutAfter_flatten hpieces, List.map_map]
  refine (List.map_congr_left fun l hl => ?_).trans (List.map_id lines)
  obtain ⟨chars, rfl, -⟩ := h l hl
  exact congrArg Line.text String.ofList_toList

theorem isWhole_of_mem_typed {limit : Nat} : ∀ {lines : List String} {s : Store} {input : List Line},
    (∀ line ∈ lines, '\n' ∉ line.toList) → (∀ l ∈ input, l.IsWhole) →
      ∀ l ∈ (scriptEntries limit s lines input).flatMap Entry.typed, l.IsWhole
  | [], _, _, _, _, l, hl => by cases hl
  | line :: lines, s, input, hlines, hinput, l, hl => by
    obtain ⟨hline, hlines⟩ := List.forall_mem_cons.1 hlines
    cases hb : isBlank line with
    | true =>
      rw [scriptEntries_blank hb] at hl
      rcases List.mem_cons.1 hl with rfl | hl
      · exact Line.isWhole_append_lineFeed hline
      · exact isWhole_of_mem_typed hlines hinput l hl
    | false =>
      rcases he : (evaluate takeReply limit s line).run input with ⟨e, unused⟩
      obtain ⟨replies, rfl, -⟩ := takes_of_evaluate he
      obtain ⟨hreplies, hunused⟩ := List.forall_mem_append.1 hinput
      rw [scriptEntries_evaluated hb he, List.flatMap_cons] at hl
      rcases List.mem_append.1 hl with hl | hl
      · rcases List.mem_cons.1 hl with rfl | hl
        · exact Line.isWhole_append_lineFeed hline
        · exact hreplies l hl
      · exact isWhole_of_mem_typed hlines hunused l hl

/-! ## The whole program -/

theorem runRecorded_of_script {arguments : List String} {path script : String} {limit : Nat} {showVariables : Bool}
    {files : Files} (h : Arguments.read arguments = .calculate ⟨.script path, limit, showVariables⟩)
    (hscript : files.read? path = some script) {lines : List Line} {p : Progress} {r : Recording}
    (hrun : ((recorded files).answerScript limit {} script).run ⟨lines, "", ""⟩ = (p, r)) :
    runRecorded arguments files lines = (if p.allWell then 0 else 1,
      { r with output := r.output ++ if showVariables then listing p.store else "" }) := by
  have hread : ((recorded files).readFile path).run ⟨lines, "", ""⟩ = (some script, ⟨lines, "", ""⟩) :=
    congrArg (·, _) hscript
  have hprogress : (some <$> (recorded files).answerScript limit {} script).run ⟨lines, "", ""⟩ = (some p, r) := by
    rw [StateT.run_map]
    exact congrArg (fun x : Progress × Recording => (some x.1, x.2)) hrun
  simp only [runRecorded, Terminal.run, h, Terminal.calculate]
  exact (run_bind_of_run hread).trans ((run_bind_of_run hprogress).trans (run_ending files showVariables p r))

/-- **A script that is typed at the console comes to the same**, after the greeting. -/
theorem run_typed {arguments arguments' : List String} {path script stdin : String} {limit : Nat}
    {showVariables : Bool} {files : Files} (files' : Files)
    (h : Arguments.read arguments = .calculate ⟨.script path, limit, showVariables⟩)
    (h' : Arguments.read arguments' = .calculate ⟨.console true, limit, showVariables⟩)
    (hscript : files.read? path = some script) (hstdin : stdin = "" ∨ stdin.toList.getLast? = some '\n')
    (hanswered : (scriptEntries limit .empty (scriptLines script) (Line.allOfBytes stdin.toUTF8)).all
      Entry.answered = true) :
    let entries := scriptEntries limit .empty (scriptLines script) (Line.allOfBytes stdin.toUTF8)
    let typed := String.join ((entries.flatMap Entry.typed).map Line.content)
    let (code, r) := runRecorded arguments files (Line.allOfBytes stdin.toUTF8)
    Line.allOfBytes stdin.toUTF8 = entries.flatMap Entry.replies ++ r.input ∧
      runRecorded arguments' files' (Line.allOfBytes typed.toUTF8) =
        (code, ⟨[], greeting ++ r.output, r.complaints⟩) := by
  intro entries typed
  have htyped : Line.allOfBytes typed.toUTF8 = entries.flatMap Entry.typed :=
    allOfBytes_join (isWhole_of_mem_typed (fun _ => not_mem_of_mem_scriptLines)
      (Line.isWhole_of_mem_allOfBytes hstdin))
  obtain ⟨left, hinput, hrun⟩ := run_answerLines files limit (scriptLines script) {}
    ⟨Line.allOfBytes stdin.toUTF8, "", ""⟩
  have hturns := run_turns_typed files' limit (scriptLines script) (Line.allOfBytes stdin.toUTF8)
    ((Line.allOfBytes typed.toUTF8).length + 1) {} ⟨Line.allOfBytes typed.toUTF8, greeting, ""⟩ hanswered htyped
    (Nat.lt_succ_self _)
  rw [runRecorded_of_script h hscript hrun, runRecorded_of_console h' files' hturns]
  refine ⟨hinput, ?_⟩
  simp [Recording.past, String.append_assoc]

/-- A carriage return, a blank line, a group that stays open and a line with no line feed; one reply is left. -/
theorem run_typed_four_lines :
    let script := "x+y\r\n \n(z\nx*y"
    let stdin := "4\n5\n7\nrest\n"
    let files : Files := [("s.calc", script.toUTF8)]
    let entries := scriptEntries defaultLimit .empty (scriptLines script) (Line.allOfBytes stdin.toUTF8)
    let typed := String.join ((entries.flatMap Entry.typed).map Line.content)
    let (code, r) := runRecorded ["-f", "s.calc", "--show-vars"] files (Line.allOfBytes stdin.toUTF8)
    Arguments.read ["-f", "s.calc", "--show-vars"] = .calculate ⟨.script "s.calc", defaultLimit, true⟩ ∧
      Arguments.read ["--show-vars", "-i"] = .calculate ⟨.console true, defaultLimit, true⟩ ∧
      files.read? "s.calc" = some script ∧ (stdin = "" ∨ stdin.toList.getLast? = some '\n') ∧
      entries.all Entry.answered = true ∧ typed = "x+y\n4\n5\n \n(z\n7\nx*y\n" ∧ code = 1 ∧
      Line.allOfBytes stdin.toUTF8 = entries.flatMap Entry.replies ++ r.input ∧
      runRecorded ["--show-vars", "-i"] [] (Line.allOfBytes typed.toUTF8) =
        (code, ⟨[], greeting ++ r.output, r.complaints⟩) := by
  intro script stdin files entries typed
  have h : Arguments.read ["-f", "s.calc", "--show-vars"] = .calculate ⟨.script "s.calc", defaultLimit, true⟩ := by
    decide +kernel
  have h' : Arguments.read ["--show-vars", "-i"] = .calculate ⟨.console true, defaultLimit, true⟩ := by decide +kernel
  have hscript : files.read? "s.calc" = some script := by decide +kernel
  have hstdin : stdin = "" ∨ stdin.toList.getLast? = some '\n' := by decide +kernel
  have hanswered : entries.all Entry.answered = true := by decide +kernel
  have hrun := run_typed [] h h' hscript hstdin hanswered
  exact ⟨h, h', hscript, hstdin, hanswered, by decide +kernel, by decide +kernel, hrun.1, hrun.2⟩

end Console
end Calculator
