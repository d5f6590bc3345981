import Calculator.Proofs.TypedScript
/-!
# Proofs.Runs — a run of the program, from whatever source its expressions come

An expression on the command line, a script and the console are dealt with one entry after another
(`Console.Source.Deals`).  Every run writes what its entries write, after a greeting and before the listing of the
variables (`Console.exists_deals`), and what an entry says about an evaluation is so
(`Console.Source.Deals.evaluated`).
-/
namespace Calculator
namespace Console

theorem runRecorded_of_argument {arguments : List String} {expression : String} {limit : Nat} {showVariables : Bool}
    (h : Arguments.read arguments = .calculate ⟨.argument expression, limit, showVariables⟩) (files : Files)
    {lines : List Line} {p : Progress} {r : Recording}
    (hrun : ((recorded files).answer limit {} expression).run ⟨lines, "", ""⟩ = (p, r)) :
    runRecorded arguments files lines = (if p.allWell then 0 else 1,
      { r with output := r.output ++ if showVariables then listing p.store else "" }) := by
  have hprogress : (some <$> (recorded files).answer limit {} expression).run ⟨lines, "", ""⟩ = (some p, r) := by
    rw [StateT.run_map]
    exact congrArg (fun x : Progress × Recording => (some x.1, x.2)) hrun
  simp only [runRecorded, Terminal.run, h, Terminal.calculate]
  exact (run_bind_of_run hprogress).trans (run_ending files showVariables p r)

theorem runRecorded_of_unreadable {arguments : List String} {path : String} {limit : Nat} {showVariables : Bool}
    {files : Files} (h : Arguments.read arguments = .calculate ⟨.script path, limit, showVariables⟩)
    (hscript : files.read? path = none) (lines : List Line) :
    runRecorded arguments files lines = (1, ⟨lines, "", unreadableFileText path⟩) := by
  have hread : ((recorded files).readFile path).run ⟨lines, "", ""⟩ = (none, ⟨lines, "", ""⟩) :=
    congrArg (·, _) hscript
  have hcomplain : ((recorded files).complain (unreadableFileText path)).run ⟨lines, "", ""⟩ =
      ((), ⟨lines, "", unreadableFileText path⟩) :=
    congrArg (fun text => ((), Recording.mk lines "" text)) String.empty_append
  simp only [runRecorded, Terminal.run, h, Terminal.calculate]
  exact (run_bind_of_run hread).trans (run_bind_of_run hcomplain)

/-- What is written before the first evaluation. -/
def Source.greeting : Source → String
  | .console _ => Console.greeting
  | .argument _ | .script _ => ""

/-- The entries of a run, and the lines of standard input that it leaves. -/
inductive Source.Deals (limit : Nat) (files : Files) (lines : List Line) : Source → List Entry → List Line → Prop where
  | argument {expression : String} {replies left : List Line} {e : Evaluation}
    (he : (evaluate takeReply limit .empty expression).run lines = (e, left)) (hl : lines = replies ++ left)
    (ht : Takes e replies left) : Deals limit files lines (.argument expression) [.evaluated expression replies e] left
  | unreadable {path : String} (h : files.read? path = none) : Deals limit files lines (.script path) [] lines
  | script {path script : String} {left : List Line} (h : files.read? path = some script)
    (hl : lines = (scriptEntries limit .empty (scriptLines script) lines).flatMap Entry.replies ++ left) :
    Deals limit files lines (.script path) (scriptEntries limit .empty (scriptLines script) lines) left
  | console {interactive : Bool} {entries : List Entry} {left : List Line}
    (h : Console.Deals limit interactive .empty lines entries left) :
    Deals limit files lines (.console interactive) entries left

/-- **Every run deals with its source so**, and writes what its entries write. -/
theorem exists_deals (source : Source) (limit : Nat) (files : Files) (lines : List Line) :
    ∃ entries left code complaints, source.Deals limit files lines entries left ∧ ∀ arguments showVariables,
      Arguments.read arguments = .calculate ⟨source, limit, showVariables⟩ →
        runRecorded arguments files lines = (code, ⟨left, source.greeting ++ written entries ++
          if showVariables then listing (storeAfter .empty entries) else "", complaints⟩) := by
  cases source with
  | argument expression =>
    rcases he : (evaluate takeReply limit .empty expression).run lines with ⟨e, left⟩
    obtain ⟨replies, hreplies, ht⟩ := takes_of_evaluate he
    refine ⟨_, left, if e.outcome.isOk then 0 else 1, "", .argument he hreplies ht, fun arguments showVariables h => ?_⟩
    rw [runRecorded_of_argument h files (run_answer_past files (p := {}) (r := ⟨lines, "", ""⟩) replies he)]
    simp [Progress.past, Recording.past, Source.greeting, Entry.succeeded, complained, Entry.complaints]
  | script path =>
    cases hscript : files.read? path with
    | none =>
      refine ⟨[], lines, 1, unreadableFileText path, .unreadable hscript, fun arguments showVariables h => ?_⟩
      rw [runRecorded_of_unreadable h hscript lines]
      cases showVariables <;> rfl
    | some script =>
      let entries := scriptEntries limit .empty (scriptLines script) lines
      obtain ⟨left, hleft, hrun⟩ := run_answerLines files limit (scriptLines script) {} ⟨lines, "", ""⟩
      refine ⟨_, left, if entries.all Entry.succeeded then 0 else 1, complained entries, .script hscript hleft,
        fun arguments showVariables h => ?_⟩
      rw [runRecorded_of_script h hscript hrun]
      simp [entries, Progress.past, Recording.past, Source.greeting]
  | console interactive =>
    obtain ⟨entries, left, hdeals, hrun⟩ := Terminal.run_turns files limit interactive (lines.length + 1) {}
      ⟨lines, Console.greeting, ""⟩ (Nat.lt_succ_self _)
    refine ⟨_, left, if entries.all Entry.succeeded then 0 else 1, complained entries, .console hdeals,
      fun arguments showVariables h => ?_⟩
    rw [runRecorded_of_console h files hrun]
    simp [Progress.past, Recording.past, Source.greeting]

/-! ## What an entry says about an evaluation -/

/-- The evaluation of an expression that takes these replies, on some store and before some other lines. -/
def Evaluates (limit : Nat) (expression : String) (replies : List Line) (e : Evaluation) : Prop :=
  ∃ s rest, (evaluate takeReply limit s expression).run (replies ++ rest) = (e, rest) ∧ Takes e replies rest

theorem evaluates_of_mem_scriptEntries {limit : Nat} {expression : String} {replies : List Line} {e : Evaluation} :
    ∀ {lines : List String} {s : Store} {input : List Line},
      .evaluated expression replies e ∈ scriptEntries limit s lines input → Evaluates limit expression replies e
  | [], _, _, h => by cases h
  | line :: lines, s, input, h => by
    cases hb : isBlank line with
    | true =>
      rw [scriptEntries_blank hb] at h
      rcases List.mem_cons.1 h with h | h
      · cases h
      · exact evaluates_of_mem_scriptEntries h
    | false =>
      rcases he : (evaluate takeReply limit s line).run input with ⟨e', left⟩
      obtain ⟨replies', rfl, ht⟩ := takes_of_evaluate he
      rw [scriptEntries_evaluated hb he] at h
      rcases List.mem_cons.1 h with h | h
      · cases h
        exact ⟨s, left, he, ht⟩
      · exact evaluates_of_mem_scriptEntries h

/-- **What an entry says is evaluated is evaluated**, and its replies are lines of standard input. -/
theorem Source.Deals.evaluated {source : Source} {limit : Nat} {files : Files} {lines left : List Line}
    {entries : List Entry} (h : source.Deals limit files lines entries left) {expression : String}
    {replies : List Line} {e : Evaluation} (hmem : .evaluated expression replies e ∈ entries) :
    Evaluates limit expression replies e ∧ replies ⊆ lines := by
  cases h with
  | argument he hl ht =>
    cases List.mem_singleton.1 hmem
    exact ⟨⟨_, _, hl ▸ he, ht⟩, hl ▸ List.subset_append_left _ _⟩
  | unreadable => cases hmem
  | script hscript hl =>
    refine ⟨evaluates_of_mem_scriptEntries hmem, fun l hline => ?_⟩
    rw [hl]
    exact List.mem_append_left left (List.mem_flatMap.2 ⟨_, hmem, hline⟩)
  | console h =>
    refine ⟨?_, fun l hline => ?_⟩
    · obtain ⟨before, after, rfl⟩ := List.append_of_mem hmem
      obtain ⟨rest, h⟩ := h.of_append before
      obtain ⟨-, ht, he⟩ := h.evaluated
      exact ⟨_, _, he, ht⟩
    · rw [h.lines_eq]
      exact List.mem_append_left left (List.mem_flatMap.2 ⟨_, hmem, List.mem_cons_of_mem _ hline⟩)

end Console
end Calculator
