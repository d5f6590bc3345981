import Calculator.Proofs.Runs
import Calculator.Proofs.Spacing
/-!
# Proofs.Reports — a report is one line, unless it repeats a line

No part of an expression, no name and no number that is written has a line feed in it, so a report has one at its end
and no other.  The one text that can bring a line feed into a report is a reply: it is a line of standard input as it
was typed, and a reply that writes no number is repeated as it is.  Such a report says which line it repeats, and has
the line feed of that line and its own (`Console.run_reports`).
-/
namespace Calculator

namespace Unbroken

theorem singleton {c : Char} (h : c ≠ '\n') : Unbroken (String.singleton c) := by
  rw [Unbroken, String.toList_singleton, List.mem_singleton]
  exact h.symm

theorem toString_nat (n : Nat) : Unbroken (toString n) := by
  refine of_unspaced fun c hc => ?_
  rw [show (toString n).toList = Nat.toDigits 10 n from String.toList_ofList] at hc
  exact Lexeme.not_isWhiteSpace_of_continues (by rw [Lexeme.continues, Number.isDigit_of_mem_toDigits c hc]; rfl)

theorem malformedNumber {text : String} (h : Unbroken text) : Unbroken (Fault.malformedNumber text).message :=
  ((show Unbroken "Некорректное число: \"" by decide).append h).append (by decide)

theorem unresolved {name details : String} (hn : Unbroken name) (hd : Unbroken details) :
    Unbroken (Fault.unresolved name details).message :=
  (((show Unbroken "Не удалось получить значение переменной '" by decide).append hn).append (by decide)).append hd

theorem unknownCharacter {c : Char} (h : c ≠ '\n') : Unbroken (Fault.unknownCharacter c).message :=
  (show Unbroken "Неизвестный символ: " by decide).append (singleton h)

theorem tooDeep (limit : Nat) : Unbroken (Fault.tooDeep limit).message :=
  ((show Unbroken "Выражение слишком сложное: вложенность скобок больше " by decide).append
    (toString_nat limit)).append (by decide)

end Unbroken

/-! ## Where a line feed can come from -/

namespace Machine

/-- A fault of the text has no line feed that the text does not have. -/
theorem Rule.unbroken {limit : Nat} {c : Config} {fault : Fault} {unread : List Char}
    (h : Rule limit c (.stop (.error fault) unread)) (hc : '\n' ∉ c.unread) : Unbroken fault.message := by
  cases h with
  | ended | unclosed | unopened | unmatched => decide
  | badNumber hs hr hf =>
    obtain rfl := Number.fault_of_read hf
    exact .malformedNumber (.of_covers (by rwa [String.toList_ofList]))
  | divided _ _ _ hm | groupDivided hm =>
    obtain rfl := Pending.multiply_eq_error hm
    decide
  | tooDeep => exact .tooDeep limit
  | strange | unknown => exact .unknownCharacter fun heq => hc (heq ▸ List.mem_cons_self)

/-- A fault that is not one of the text is what the last reply is worth. -/
theorem Last.unbroken {limit : Nat} {c : Config} {s : Store} {e : Evaluation} {fault : Fault} (h : Last limit c s e)
    (hc : '\n' ∉ c.unread) (he : e.outcome = .error fault) :
    Unbroken fault.message ∨
      ∃ name reply, e.asked.getLast? = some (name, reply) ∧ Reply.value name reply = .error fault := by
  cases h with
  | stopped h =>
    cases he
    exact .inl ((rule_iff.2 h).unbroken hc)
  | refused h hf hv =>
    cases he
    obtain ⟨reply, -, hreply, rfl⟩ := hf.of_error hv
    exact .inr ⟨_, reply, rfl, hreply⟩
  | divided h hf hv hm =>
    cases he
    obtain rfl := Pending.multiply_eq_error hm
    exact .inl (by decide)

theorem kept_unbroken (limit : Nat) : Kept limit fun c _ => '\n' ∉ c.unread where
  move hc h := fun hmem => hc ((rule_iff.2 h).unread_suffix.subset hmem)
  resume hc h _ _ _ := fun hmem => hc ((rule_iff.2 h).unread_suffix.subset hmem)

end Machine

/-- **A line feed in a message comes from the last reply.** -/
theorem evaluate_unbroken {σ : Type} (ask : String → StateM σ Reply) (limit : Nat) (s : Store) (expression : String)
    (memory : σ) {fault : Fault} (h : ((evaluate ask limit s expression).run memory).1.outcome = .error fault) :
    Unbroken fault.message ∨ ∃ name reply,
      ((evaluate ask limit s expression).run memory).1.asked.getLast? = some (name, reply) ∧
        Reply.value name reply = .error fault := by
  have hcourse := course_evaluateSource ask limit s (withoutWhiteSpace expression) memory
  have hstart : '\n' ∉ (Machine.Config.start (withoutWhiteSpace expression).toList).unread :=
    Unbroken.of_unspaced (unspaced_withoutWhiteSpace expression)
  unfold evaluate at h ⊢
  obtain ⟨c, s, e, before, hc, hlast, he⟩ := hcourse.exists_last (Machine.kept_unbroken limit) hstart
  rw [he] at h ⊢
  rcases hlast.unbroken hc h with hplain | ⟨name, reply, hreply, hv⟩
  · exact .inl hplain
  · refine .inr ⟨name, reply, ?_, hv⟩
    rw [Evaluation.asked, List.filterMap_append, List.getLast?_append, ← Evaluation.asked, hreply]
    rfl

namespace Console

/-! ## Lines of standard input -/

/-- Whether a line has a line feed nowhere but at its end. -/
def Line.IsOne : Line → Prop
  | text content => '\n' ∉ content.toList.dropLast
  | undecodable => True

theorem toUTF8_of_ofBytes {bytes : List UInt8} {content : String} (h : Line.ofBytes ⟨bytes.toArray⟩ = .text content) :
    content.toList.flatMap String.utf8EncodeChar = bytes := by
  rw [← toList_toUTF8]
  unfold Line.ofBytes String.fromUTF8? at h
  split at h
  · rename_i hdecode
    split at hdecode
    · cases hdecode
      cases h
      rw [ByteArray.toList, toList_loop]
      rfl
    · cases hdecode
  · cases h

theorem Line.isOne_ofBytes {bytes : List UInt8} (h : 10 ∉ bytes.dropLast) : (ofBytes ⟨bytes.toArray⟩).IsOne := by
  cases hline : ofBytes ⟨bytes.toArray⟩ with
  | undecodable => trivial
  | text content =>
    have hbytes := toUTF8_of_ofBytes hline
    rcases List.eq_nil_or_concat content.toList with hnil | ⟨front, c, hconcat⟩
    · rw [IsOne, hnil]
      exact List.not_mem_nil
    · rw [List.concat_eq_append] at hconcat
      rw [hconcat, List.flatMap_append, List.flatMap_singleton] at hbytes
      rw [IsOne, hconcat, List.dropLast_concat]
      rw [← hbytes, List.dropLast_append_of_ne_nil String.utf8EncodeChar_ne_nil] at h
      exact fun hmem => h (List.mem_append_left _ (List.mem_flatMap.2 ⟨'\n', hmem, by decide⟩))

theorem Line.isOne_of_mem_allOfBytes {bytes : ByteArray} : ∀ l ∈ allOfBytes bytes, l.IsOne := by
  intro l hl
  obtain ⟨piece, hpiece, rfl⟩ := List.mem_map.1 hl
  obtain ⟨before, after, hcut⟩ := List.append_of_mem hpiece
  obtain ⟨front, last, rfl, hfront, -⟩ := areLines_cutAfter bytes.toList before piece after hcut
  exact isOne_ofBytes (by rwa [List.dropLast_concat])

/-- A line that has a line feed ends in it. -/
theorem Line.IsOne.exists_front {content : String} (h : (text content).IsOne) (hb : ¬ Unbroken content) :
    ∃ front, Unbroken front ∧ content = front ++ "\n" := by
  rcases List.eq_nil_or_concat content.toList with hnil | ⟨front, c, hconcat⟩
  · rw [Unbroken, hnil] at hb
    exact absurd List.not_mem_nil hb
  · rw [List.concat_eq_append] at hconcat
    rw [IsOne, hconcat, List.dropLast_concat] at h
    have hc : c = '\n' := by
      rw [Unbroken, hconcat, List.mem_append, not_not] at hb
      exact (List.mem_singleton.1 (hb.resolve_left h)).symm
    refine ⟨String.ofList front, by rwa [Unbroken, String.toList_ofList], String.toList_injective ?_⟩
    rw [hconcat, hc, String.toList_append, String.toList_ofList]
    rfl

/-! ## Reports -/

/-- Whether a report is one line: what it says, and a line feed. -/
def OneLine (report : String) : Prop :=
  ∃ text, Unbroken text ∧ (report = "Результат: " ++ text ++ "\n" ∨ report = "Ошибка: " ++ text ++ "\n")

/-- Whether an evaluation has failed because its last reply, which ends in a line feed, writes no number.  The report
repeats this reply. -/
def Repeats (replies : List Line) (outcome : Except Fault Float) : Prop :=
  ∃ front, Unbroken front ∧ replies.getLast? = some (.text (front ++ "\n")) ∧
    Number.read (front ++ "\n") = .error (.malformedNumber (front ++ "\n")) ∧
    outcome = .error (.malformedNumber (front ++ "\n")) ∧
    reportText outcome = "Ошибка: Некорректное число: \"" ++ front ++ "\n\"\n"

/-- What an evaluation writes: prompts without a line feed, and a report. -/
structure Reported (replies : List Line) (e : Evaluation) : Prop where
  prompts : ∀ name ∈ e.prompts, Unbroken (promptText name)
  report : OneLine (reportText e.outcome) ∨ Repeats replies e.outcome

/-- A report that is one line has one line feed. -/
theorem OneLine.count {report : String} (h : OneLine report) : report.toList.count '\n' = 1 := by
  obtain ⟨text, htext, rfl | rfl⟩ := h <;>
    simp only [String.toList_append, List.count_append, List.count_eq_zero.2 htext] <;> decide

theorem oneLine_of_unbroken {fault : Fault} (h : Unbroken fault.message) : OneLine (reportText (.error fault)) :=
  ⟨fault.message, h, .inr rfl⟩

theorem reportText_of_lineFeed (front : String) : reportText (.error (.malformedNumber (front ++ "\n"))) =
    "Ошибка: Некорректное число: \"" ++ front ++ "\n\"\n" := by
  have hhead : "Ошибка: Некорректное число: \"" = "Ошибка: " ++ "Некорректное число: \"" := by decide +kernel
  have htail : "\n\"\n" = "\n" ++ ("\"" ++ "\n") := by decide +kernel
  calc reportText (.error (.malformedNumber (front ++ "\n")))
      = "Ошибка: " ++ ("Некорректное число: \"" ++ (front ++ "\n") ++ "\"") ++ "\n" := rfl
    _ = ("Ошибка: " ++ "Некорректное число: \"") ++ front ++ ("\n" ++ ("\"" ++ "\n")) := by
        simp only [String.append_assoc]
    _ = "Ошибка: Некорректное число: \"" ++ front ++ "\n\"\n" :=
        congrArg₂ (fun head tail => head ++ front ++ tail) hhead.symm htail.symm

/-- The last reply is the last line that was taken, unless there was none left. -/
theorem Takes.getLast? {e : Evaluation} {replies left : List Line} (h : Takes e replies left) {name : String}
    {reply : Reply} (hlast : e.asked.getLast? = some (name, reply)) :
    reply = .error closedText ∨ ∃ l, replies.getLast? = some l ∧ reply = l.reply := by
  have hreply : (e.asked.map Prod.snd).getLast? = some reply := by
    rw [List.getLast?_map, hlast]
    rfl
  rcases h with h | ⟨-, h⟩
  · rw [h, List.getLast?_map, Option.map_eq_some_iff] at hreply
    obtain ⟨l, hl, rfl⟩ := hreply
    exact .inr ⟨l, hl, rfl⟩
  · rw [h, List.getLast?_concat] at hreply
    exact .inl (Option.some.inj hreply).symm

/-- What the last reply is worth is reported on one line, or the reply is repeated. -/
theorem report_of_getLast? {e : Evaluation} {replies left : List Line} (ht : Takes e replies left)
    (hone : ∀ l ∈ replies, l.IsOne) {name : String} {reply : Reply} {fault : Fault} (hname : Unbroken name)
    (hlast : e.asked.getLast? = some (name, reply)) (hv : Reply.value name reply = .error fault) :
    OneLine (reportText (.error fault)) ∨ Repeats replies (.error fault) := by
  rcases ht.getLast? hlast with rfl | ⟨l, hl, rfl⟩
  · cases hv
    exact .inl (oneLine_of_unbroken (.unresolved hname (by decide)))
  · cases l with
    | undecodable =>
      cases hv
      exact .inl (oneLine_of_unbroken (.unresolved hname (by decide)))
    | text content =>
      have hread : Number.read content = .error fault := hv
      obtain rfl := Number.fault_of_read hread
      -- a line of standard input keeps its line feed, and the reading of a number repeats what it is given
      by_cases hcontent : Unbroken content
      · exact .inl (oneLine_of_unbroken (.malformedNumber hcontent))
      · obtain ⟨front, hfront, rfl⟩ := (hone _ (List.mem_of_getLast? hl)).exists_front hcontent
        exact .inr ⟨front, hfront, hl, hread, rfl, reportText_of_lineFeed front⟩

/-- **Every evaluation is reported so.** -/
theorem Evaluates.reported {limit : Nat} {expression : String} {replies : List Line} {e : Evaluation}
    (h : Evaluates limit expression replies e) (hone : ∀ l ∈ replies, l.IsOne) : Reported replies e := by
  obtain ⟨s, rest, he, ht⟩ := h
  have hnames : ∀ p ∈ e.asked, Unbroken p.1 := fun p hp =>
    .of_covers (covers_of_mem_asked takeReply limit s expression (replies ++ rest) (by rwa [he]))
  refine ⟨fun name hname => ?_, ?_⟩
  · rw [e.prompts_eq] at hname
    obtain ⟨p, hp, rfl⟩ := List.mem_map.1 hname
    exact ((show Unbroken "Введите значение для переменной '" by decide).append (hnames p hp)).append (by decide)
  · cases houtcome : e.outcome with
    | ok value => exact .inl ⟨Number.write value, .of_unspaced (Number.unspaced_write value), .inl rfl⟩
    | error fault =>
      have hrun : ((evaluate takeReply limit s expression).run (replies ++ rest)).1.outcome = .error fault := by
        rwa [he]
      have hfault := evaluate_unbroken takeReply limit s expression (replies ++ rest) hrun
      rw [he] at hfault
      rcases hfault with hplain | ⟨name, reply, hlast, hv⟩
      · exact .inl (oneLine_of_unbroken hplain)
      · exact report_of_getLast? ht hone (hnames _ (List.mem_of_getLast? hlast)) hlast hv

/-- **A report is one line, unless it repeats a line.**  Whatever its source is and whatever is typed, a run writes the
transcripts of its evaluations one after another, and each of them has prompts without a line feed and then a report.
The report is one line, except where the last reply is a line that writes no number: there the line is repeated, with
the line feed it was typed with. -/
theorem run_reports {arguments : List String} {source : Source} {limit : Nat} {showVariables : Bool}
    (h : Arguments.read arguments = .calculate ⟨source, limit, showVariables⟩) (files : Files) (bytes : ByteArray) :
    ∃ entries left code complaints, source.Deals limit files (Line.allOfBytes bytes) entries left ∧
      runRecorded arguments files (Line.allOfBytes bytes) = (code, ⟨left, source.greeting ++ written entries ++
        if showVariables then listing (storeAfter .empty entries) else "", complaints⟩) ∧
      ∀ expression replies e, .evaluated expression replies e ∈ entries →
        Evaluates limit expression replies e ∧ Reported replies e := by
  obtain ⟨entries, left, code, complaints, hdeals, hrun⟩ := exists_deals source limit files (Line.allOfBytes bytes)
  refine ⟨entries, left, code, complaints, hdeals, hrun arguments showVariables h, fun expression replies e hmem => ?_⟩
  obtain ⟨hevaluates, hsubset⟩ := hdeals.evaluated hmem
  exact ⟨hevaluates, hevaluates.reported fun l hl => Line.isOne_of_mem_allOfBytes l (hsubset hl)⟩

/-- Three lines of a script: a reply that is repeated with its line feed, a division by zero, and a reply that is
repeated and has no line feed, because standard input ends there. -/
theorem run_reports_script :
    let files : Files := [("s.calc", "x+y\n1/0\nz".toUTF8)]
    let bytes := "4\nfour\nfive".toUTF8
    let source := Source.script "s.calc"
    Arguments.read ["-f", "s.calc", "--show-vars"] = .calculate ⟨source, defaultLimit, true⟩ ∧
    ∃ entries left code complaints, source.Deals defaultLimit files (Line.allOfBytes bytes) entries left ∧
      runRecorded ["-f", "s.calc", "--show-vars"] files (Line.allOfBytes bytes) = (code, ⟨left,
        source.greeting ++ written entries ++ listing (storeAfter .empty entries), complaints⟩) ∧
      source.greeting ++ written entries ++ listing (storeAfter .empty entries) = promptText "x" ++ promptText "y" ++
        "Ошибка: Некорректное число: \"four\n\"\nОшибка: Деление на ноль.\n" ++ promptText "z" ++
        "Ошибка: Некорректное число: \"five\"\nx = 4.0\n" ∧
      ∀ expression replies e, .evaluated expression replies e ∈ entries →
        Evaluates defaultLimit expression replies e ∧ Reported replies e := by
  intro files bytes source
  have h : Arguments.read ["-f", "s.calc", "--show-vars"] = .calculate ⟨source, defaultLimit, true⟩ := by
    decide +kernel
  obtain ⟨entries, left, code, complaints, hdeals, hrun, hreported⟩ := run_reports h files bytes
  have houtput := congrArg (·.2.output) hrun
  refine ⟨h, entries, left, code, complaints, hdeals, hrun, houtput.symm.trans ?_, hreported⟩
  decide +kernel

/-- Not every report is one line: this reply is repeated with its line feed. -/
theorem not_oneLine_four :
    let lines := Line.allOfBytes "four\n".toUTF8
    let e := ((evaluate takeReply defaultLimit .empty "x").run lines).1
    Arguments.read ["x"] = .calculate ⟨.argument "x", defaultLimit, false⟩ ∧
      runRecorded ["x"] [] lines = (1, ⟨[], transcript e, ""⟩) ∧
      transcript e = promptText "x" ++ reportText e.outcome ∧ ¬ OneLine (reportText e.outcome) := by
  intro lines e
  refine ⟨by decide +kernel, by decide +kernel, by decide +kernel, fun h => ?_⟩
  exact absurd h.count (by decide +kernel)

end Console
end Calculator
