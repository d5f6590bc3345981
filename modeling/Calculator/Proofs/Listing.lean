import Calculator.Proofs.Branches
import Calculator.Proofs.ByteOrder
import Calculator.Proofs.RoundTrip
import Calculator.Proofs.Runs
import Calculator.Proofs.Spacing
/-!
# Proofs.Listing — the sorted listing of a store

Stores are resolved from, evaluated on, copied and gone back to (`Store.Reached`).  The listing of each store that comes
of this is what sorting its bindings by the bytes of their names gives, in whatever order they are gone through, and so
in the order in which they were made (`Store.Lists`).  A run that is asked to show its variables writes the listing of
its last store behind everything else, a line for each binding (`Console.listing_canonical`).
-/
namespace Calculator

open Cursor (Branches)

/-! ## Bindings in the order in which they are made -/

/-- What a prompt has bound. -/
def Prompt.binding? (p : Prompt) : Option (String × Float) := p.value.toOption.map (p.1, ·)

/-- What prompts have bound, in order. -/
def made (prompts : List Prompt) : Bindings := prompts.filterMap Prompt.binding?

theorem made_append (left right : List Prompt) : made (left ++ right) = made left ++ made right :=
  List.filterMap_append

theorem Bindings.perm_insert {name : String} (value : Float) : ∀ {bindings : Bindings}, find? name bindings = none →
    (insert name value bindings).Perm ((name, value) :: bindings)
  | [], _ => .refl _
  | first :: rest, h => by
    have hne : name ≠ first.1 := fun heq => by simp [find?, heq] at h
    have hrest : find? name rest = none := by simpa [find?, hne] using h
    simp only [insert, if_neg hne]
    split
    · exact .refl _
    · exact ((perm_insert value hrest).cons first).trans (.swap _ _ _)

theorem Bindings.mem_iff {name : String} {value : Float} : ∀ {bindings : Bindings}, bindings.Pairwise (·.1 < ·.1) →
    ((name, value) ∈ bindings ↔ find? name bindings = some value)
  | [], _ => by simp [find?]
  | first :: rest, h => by
    obtain ⟨hfirst, hrest⟩ := List.pairwise_cons.1 h
    rw [List.mem_cons, find?, mem_iff hrest]
    by_cases hname : name = first.1
    · have hnone : find? name rest = none := find?_eq_none_of_lt (hname ▸ hfirst)
      rw [if_pos hname, hnone, Option.some.injEq, Prod.ext_iff]
      simp [hname, eq_comm]
    · simp [hname, Prod.ext_iff]

namespace Store

/-- Prompts that a store admits add just their bindings. -/
theorem perm_absorb : ∀ {s : Store} {prompts : List Prompt}, s.Admits prompts →
    (s.absorb prompts).toList.Perm (s.toList ++ made prompts)
  | s, [], _ => by rw [made, List.filterMap_nil, List.append_nil]; exact .refl _
  | s, p :: rest, ⟨hp, hrest⟩ => by
    have ih := perm_absorb hrest
    rw [absorb_cons, made, List.filterMap_cons]
    cases hv : p.value with
    | error fault =>
      rw [store_settle_of_error s hv] at ih ⊢
      simp only [Prompt.binding?, hv]
      exact ih
    | ok value =>
      rw [store_settle_of_ok s hv] at ih ⊢
      simp only [Prompt.binding?, hv]
      exact ih.trans (((Bindings.perm_insert value hp).append_right _).trans List.perm_middle.symm)

/-- A lookup binds what its prompt has bound, if there was one. -/
theorem Resolves.perm {s : Store} {name : String} {found : Resolution} (h : s.Resolves name found) :
    found.store.toList.Perm (s.toList ++ made found.lookup.asked?.toList) := by
  cases h with
  | known h => exact (List.append_nil _).symm ▸ .refl _
  | @accepted reply value h hr =>
    have hbind := perm_absorb (show s.Admits [(name, reply)] from ⟨h, trivial⟩)
    rwa [absorb_cons, store_settle_of_ok s (p := (name, reply)) hr] at hbind
  | @refused reply fault h hr =>
    have hbind := perm_absorb (show s.Admits [(name, reply)] from ⟨h, trivial⟩)
    rwa [absorb_cons, store_settle_of_error s (p := (name, reply)) hr] at hbind

/-! ## What a listing is -/

/-- Whether a binding may stand before another one, by the bytes of their names. -/
def byBytes (a b : String × Float) : Bool := decide (a.1.toUTF8.toList ≤ b.1.toUTF8.toList)

theorem byBytes_iff {a b : String × Float} : byBytes a b = true ↔ a.1 ≤ b.1 := by
  rw [byBytes, decide_eq_true_iff, ← List.not_lt, toUTF8_lt_iff, String.not_lt]

theorem nodup_names (s : Store) : (s.toList.map Prod.fst).Nodup := by
  refine List.pairwise_map.2 (s.ascending.imp fun {a b} hab (heq : a.1 = b.1) => ?_)
  rw [heq] at hab
  exact String.lt_irrefl _ hab

/-- How the listing of a store shows its bindings, which were made in this order. -/
structure Lists (s : Store) (inOrder : Bindings) : Prop where
  bytes : s.toList.Pairwise fun a b => a.1.toUTF8.toList < b.1.toUTF8.toList
  codePoints : s.toList.Pairwise fun a b => a.1.toList.map Char.toNat < b.1.toList.map Char.toNat
  mem_iff : ∀ name value, (name, value) ∈ s.toList ↔ s.get? name = some value
  contains_iff : ∀ name, s.contains name = true ↔ ∃ value, (name, value) ∈ s.toList
  length_eq : s.toList.length = s.size
  isEmpty_iff : s.isEmpty = true ↔ s.toList = []
  /-- Whatever order the bindings are gone through in, sorting gives the listing. -/
  sorts : ∀ bindings : Bindings, bindings.Nodup → (∀ name value, (name, value) ∈ bindings ↔ s.get? name = some value) →
    bindings.mergeSort byBytes = s.toList
  /-- No name was bound twice. -/
  nodup : (inOrder.map Prod.fst).Nodup
  mergeSort_eq : inOrder.mergeSort byBytes = s.toList

/-- Sorting is the only way to put the bindings in order. -/
theorem mergeSort_of_perm {s : Store} {bindings : Bindings} (h : s.toList.Perm bindings) :
    bindings.mergeSort byBytes = s.toList := by
  have hperm : (bindings.mergeSort byBytes).Perm s.toList := (List.mergeSort_perm _ _).trans h.symm
  have hsorted : (bindings.mergeSort byBytes).Pairwise (·.1 ≤ ·.1) := by
    refine (List.pairwise_mergeSort (fun a b c hab hbc => ?_) (fun a b => ?_) bindings).imp byBytes_iff.1
    · exact byBytes_iff.2 (String.le_trans (byBytes_iff.1 hab) (byBytes_iff.1 hbc))
    · rw [Bool.or_eq_true, byBytes_iff, byBytes_iff]
      exact String.le_total _ _
  have hlisted : s.toList.Pairwise (·.1 ≤ ·.1) := s.ascending.imp fun hab => String.not_lt.1 (String.lt_asymm hab)
  refine hperm.eq_of_pairwise (fun a b ha hb hab hba => ?_) hsorted hlisted
  -- a name has one value, so bindings that may stand either way are the same
  have hname : a.1 = b.1 := String.le_antisymm hab hba
  have ha := (Bindings.mem_iff s.ascending).1 (hperm.mem_iff.1 ha)
  have hb := (Bindings.mem_iff s.ascending).1 hb
  rw [hname, hb] at ha
  exact Prod.ext hname (Option.some.inj ha).symm

theorem lists_of_perm {s : Store} {inOrder : Bindings} (h : s.toList.Perm inOrder) : s.Lists inOrder where
  bytes := s.ascending.imp toUTF8_lt_iff.2
  codePoints := s.ascending.imp codePoints_lt_iff.2
  mem_iff name value := Bindings.mem_iff s.ascending
  contains_iff name := by
    rw [contains, Option.isSome_iff_exists]
    exact exists_congr fun value => (Bindings.mem_iff s.ascending).symm
  length_eq := rfl
  isEmpty_iff := List.isEmpty_iff
  sorts bindings hnodup hmem := by
    refine mergeSort_of_perm ((List.perm_ext_iff_of_nodup (.of_map _ s.nodup_names) hnodup).2 fun binding => ?_)
    exact (Bindings.mem_iff s.ascending).trans (hmem binding.1 binding.2).symm
  nodup := (h.map Prod.fst).nodup_iff.1 s.nodup_names
  mergeSort_eq := mergeSort_of_perm h

theorem Lists.perm {s : Store} {inOrder : Bindings} (h : s.Lists inOrder) : s.toList.Perm inOrder :=
  h.mergeSort_eq ▸ List.mergeSort_perm inOrder byBytes

/-! ## Stores that are reached -/

/-- A store in use and stores that are kept, each beside its bindings in the order in which they were made. -/
inductive Reached : Branches Store → Branches Bindings → Prop where
  | start : Reached (.fresh .empty) (.fresh [])
  | resolved {b : Branches Store} {m : Branches Bindings} (h : Reached b m) {σ : Type} {ask : String → StateM σ Reply}
    {name : String} {memory memory' : σ} {found : Resolution}
    (hf : (b.current.resolve ask name).run memory = (found, memory')) :
    Reached { b with current := found.store } { m with current := m.current ++ made found.lookup.asked?.toList }
  | evaluated {b : Branches Store} {m : Branches Bindings} (h : Reached b m) {σ : Type} {ask : String → StateM σ Reply}
    {limit : Nat} {expression : String} {memory memory' : σ} {e : Evaluation}
    (he : (evaluate ask limit b.current expression).run memory = (e, memory')) :
    Reached { b with current := e.store } { m with current := m.current ++ made e.asked }
  /-- A copy of the store in use is kept. -/
  | saved {b : Branches Store} {m : Branches Bindings} (h : Reached b m) (slot : Nat) :
    Reached (b.save slot) (m.save slot)
  | restored {b : Branches Store} {m : Branches Bindings} (h : Reached b m) (slot : Nat) :
    Reached (b.restore slot) (m.restore slot)

/-- A store lists what was bound on the way to it. -/
theorem Reached.perm {b : Branches Store} {m : Branches Bindings} (h : Reached b m) :
    b.current.toList.Perm m.current ∧ ∀ slot, (b.kept slot).toList.Perm (m.kept slot) := by
  induction h with
  | start => exact ⟨.refl _, fun _ => .refl _⟩
  | resolved h hf ih => exact ⟨(resolves_of_run hf).perm.trans (ih.1.append_right _), ih.2⟩
  | @evaluated b m h σ ask limit expression memory memory' e he ih =>
    have hx := exchange_evaluate ask limit b.current expression memory
    rw [he] at hx
    rw [hx.store_eq]
    exact ⟨(perm_absorb hx.admits).trans (ih.1.append_right _), ih.2⟩
  | saved h slot ih =>
    refine ⟨ih.1, fun k => ?_⟩
    dsimp only [Branches.save]
    split
    · exact ih.1
    · exact ih.2 k
  | restored h slot ih => exact ⟨ih.2 slot, ih.2⟩

theorem Reached.lists {b : Branches Store} {m : Branches Bindings} (h : Reached b m) :
    b.current.Lists m.current ∧ ∀ slot, (b.kept slot).Lists (m.kept slot) :=
  ⟨lists_of_perm h.perm.1, fun slot => lists_of_perm (h.perm.2 slot)⟩

end Store

/-- A history leads to its store. -/
theorem History.reached {es : List Evaluation} {s : Store} (h : History es s) :
    ∃ b m, Store.Reached b m ∧ b.current = s ∧ m.current = made (prompted es) := by
  induction h with
  | start => exact ⟨_, _, .start, rfl, rfl⟩
  | @next es s h σ ask memory limit expression ih =>
    obtain ⟨b, m, hreached, rfl, hmade⟩ := ih
    refine ⟨_, _, .evaluated hreached rfl, rfl, ?_⟩
    rw [prompted_append, prompted_singleton, made_append, ← hmade]
    rfl

/-! ## The evaluations of a run -/

namespace Console

def Entry.evaluation? : Entry → Option Evaluation
  | blank _ | unreadable => none
  | evaluated _ _ e => some e

def evaluations (entries : List Entry) : List Evaluation := entries.filterMap Entry.evaluation?

theorem evaluations_evaluated (expression : String) (replies : List Line) (e : Evaluation) (entries : List Entry) :
    evaluations (.evaluated expression replies e :: entries) = e :: evaluations entries := rfl

theorem written_eq : ∀ entries : List Entry, written entries = String.join ((evaluations entries).map transcript)
  | [] => rfl
  | entry :: entries => by
    have ih := written_eq entries
    rw [written, List.map_cons, String.join_cons, ← written, ih]
    cases entry with
    | blank | unreadable => exact String.empty_append
    | evaluated => rw [evaluations_evaluated, List.map_cons, String.join_cons, Entry.output]

theorem history_concat {σ : Type} {ask : String → StateM σ Reply} {limit : Nat} {s : Store} {expression : String}
    {memory memory' : σ} {e : Evaluation} {es : List Evaluation} (h : History es s)
    (he : (evaluate ask limit s expression).run memory = (e, memory')) : History (es ++ [e]) e.store := by
  have hnext := h.next ask memory limit expression
  rwa [he] at hnext

/-- The evaluations of a console are a history. -/
theorem Deals.history {limit : Nat} {interactive : Bool} {s : Store} {lines left : List Line} {entries : List Entry}
    (hd : Deals limit interactive s lines entries left) {es : List Evaluation} (h : History es s) :
    History (es ++ evaluations entries) (storeAfter s entries) := by
  induction hd generalizing es with
  | closed | unreadable => exact (List.append_nil es).symm ▸ h
  | blank hi hb hd ih => exact ih h
  | only hi he ht => exact history_concat h he
  | next hi hb he ht hd ih =>
    rw [evaluations_evaluated, List.append_cons]
    exact ih (history_concat h he)

/-- So are the evaluations of a script. -/
theorem history_scriptEntries (limit : Nat) : ∀ (lines : List String) (input : List Line) {s : Store}
    {es : List Evaluation}, History es s →
      History (es ++ evaluations (scriptEntries limit s lines input))
        (storeAfter s (scriptEntries limit s lines input))
  | [], _, s, es, h => (List.append_nil es).symm ▸ h
  | line :: lines, input, s, es, h => by
    cases hb : isBlank line with
    | true =>
      rw [scriptEntries_blank hb]
      exact history_scriptEntries limit lines input h
    | false =>
      rcases he : (evaluate takeReply limit s line).run input with ⟨e, left⟩
      obtain ⟨replies, rfl, -⟩ := takes_of_evaluate he
      rw [scriptEntries_evaluated hb he, evaluations_evaluated, List.append_cons]
      exact history_scriptEntries limit lines left (history_concat h he)

/-- So are the evaluations of a run. -/
theorem Source.Deals.history {source : Source} {limit : Nat} {files : Files} {lines left : List Line}
    {entries : List Entry} (h : source.Deals limit files lines entries left) :
    History (evaluations entries) (storeAfter .empty entries) := by
  cases h with
  | argument he hl ht => exact history_concat .start he
  | unreadable => exact .start
  | script => exact history_scriptEntries limit _ lines .start
  | console h => exact h.history .start

/-! ## What a run shows -/

theorem isLine_bindingText {binding : String × Float} (h : Lexeme.name.covers binding.1.toList = true) :
    IsLine (bindingText binding).toList := by
  have hequals : Unbroken " = " := by decide
  have htext : Unbroken (binding.1 ++ " = " ++ Number.write binding.2) :=
    ((Unbroken.of_covers h).append hequals).append (.of_unspaced (Number.unspaced_write binding.2))
  exact ⟨(binding.1 ++ " = " ++ Number.write binding.2).toList, String.toList_append, htext⟩

/-- A listing has a line for each binding. -/
theorem cutAfter_listing {es : List Evaluation} {s : Store} (h : History es s) :
    cutAfter (· == '\n') (listing s).toList = s.toList.map fun binding => (bindingText binding).toList := by
  have hlist : (listing s).toList = (s.toList.map fun binding => (bindingText binding).toList).flatten := by
    simp [listing, ← List.flatMap_def, List.flatMap_map]
  rw [hlist, cutAfter_flatten]
  intro piece hpiece
  obtain ⟨binding, hbinding, rfl⟩ := List.mem_map.1 hpiece
  have hget : s.get? binding.1 = some binding.2 := (Bindings.mem_iff s.ascending).1 hbinding
  exact isLine_bindingText (h.names binding.1 (.inl (by rw [Store.contains, hget]; rfl)))

/-- **The listing of a store is faithful and canonical.**  Each store that is reached lists just its bindings, once each
and in the order of the bytes of their names.  Stores with the same bindings have one listing, in whatever order the
bindings were made.  And what a run writes when it is asked to show its variables is, after the transcripts of the
evaluations among its entries, also of those that failed, the listing of the store that they have led to, a line for
each binding. -/
theorem listing_canonical :
    (∀ b m, Store.Reached b m → b.current.Lists m.current ∧ ∀ slot, (b.kept slot).Lists (m.kept slot)) ∧
    (∀ s t inOrder inOrder', Store.Lists s inOrder → Store.Lists t inOrder' →
      (∀ name, s.get? name = t.get? name) ∨ inOrder.Perm inOrder' → s.toList = t.toList) ∧
    ∀ (source : Source) limit files lines, ∃ entries b m code left complaints,
      source.Deals limit files lines entries left ∧
      History (evaluations entries) b.current ∧ b.current = storeAfter .empty entries ∧
      Store.Reached b m ∧ m.current = made (prompted (evaluations entries)) ∧
      cutAfter (· == '\n') (listing b.current).toList =
        b.current.toList.map (fun binding => (bindingText binding).toList) ∧
      ∀ arguments showVariables, Arguments.read arguments = .calculate ⟨source, limit, showVariables⟩ →
        runRecorded arguments files lines =
          (code, ⟨left, source.greeting ++ String.join ((evaluations entries).map transcript) ++
            if showVariables then listing b.current else "", complaints⟩) := by
  refine ⟨fun b m h => h.lists, fun s t inOrder inOrder' hs ht h => ?_, fun source limit files lines => ?_⟩
  · rcases h with h | h
    · rw [Store.ext_get? h]
    · rw [← hs.mergeSort_eq, Store.mergeSort_of_perm (ht.perm.trans h.symm)]
  · obtain ⟨entries, left, code, complaints, hdeals, hrun⟩ := exists_deals source limit files lines
    have hes := hdeals.history
    obtain ⟨b, m, hreached, hstore, hmade⟩ := hes.reached
    refine ⟨entries, b, m, code, left, complaints, hdeals, hstore ▸ hes, hstore, hreached, hmade, ?_,
      fun arguments showVariables h => ?_⟩
    · rw [hstore]
      exact cutAfter_listing hes
    · rw [hrun arguments showVariables h, written_eq, hstore]

/-- Names whose order is another one by the units of UTF-16, bound in that other order before a division by zero and in
the right one without a fault. -/
theorem listing_canonical_surrogates :
    let ask : String → StateM (List Reply) Reply := fun _ => modifyGet fun left => (left.headD (.ok ""), left.tail)
    let e := ((evaluate ask 1 .empty "𝐀/(ﬀ-ﬀ)").run [.ok "1", .ok "2"]).1
    let e' := ((evaluate ask 1 .empty "ﬀ*𝐀").run [.ok "2", .ok "1"]).1
    let source := Source.argument "𝐀/(ﬀ-ﬀ)"
    (e.outcome = .error .divisionByZero ∧ made e.asked = [("𝐀", 1), ("ﬀ", 2)] ∧
      Arguments.read ["--show-vars", "𝐀/(ﬀ-ﬀ)"] = .calculate ⟨source, defaultLimit, true⟩) ∧
    e.store.Lists [("𝐀", 1), ("ﬀ", 2)] ∧ e.store.toList = e'.store.toList ∧
    ∃ entries b m code left complaints,
      source.Deals defaultLimit [] [.text "1\n", .text "2\n"] entries left ∧
      History (evaluations entries) b.current ∧ b.current = storeAfter .empty entries ∧
      Store.Reached b m ∧ m.current = made (prompted (evaluations entries)) ∧
      cutAfter (· == '\n') (listing b.current).toList =
        b.current.toList.map (fun binding => (bindingText binding).toList) ∧
      runRecorded ["--show-vars", "𝐀/(ﬀ-ﬀ)"] [] [.text "1\n", .text "2\n"] =
        (code, ⟨left, source.greeting ++ String.join ((evaluations entries).map transcript) ++ listing b.current,
          complaints⟩) := by
  intro ask e e' source
  have hmade : made e.asked = [("𝐀", 1), ("ﬀ", 2)] := by decide +kernel
  have hread : Arguments.read ["--show-vars", "𝐀/(ﬀ-ﬀ)"] = .calculate ⟨source, defaultLimit, true⟩ := by decide +kernel
  obtain ⟨hlists, hcanonical, hruns⟩ := listing_canonical
  have he := (hlists _ _ (.evaluated .start
    (rfl : (evaluate ask 1 .empty "𝐀/(ﬀ-ﬀ)").run [.ok "1", .ok "2"] = _))).1
  have he' := (hlists _ _ (.evaluated .start (rfl : (evaluate ask 1 .empty "ﬀ*𝐀").run [.ok "2", .ok "1"] = _))).1
  refine ⟨⟨by decide +kernel, hmade, hread⟩, hmade ▸ he, hcanonical e.store e'.store _ _ he he' (.inr ?_), ?_⟩
  · decide +kernel
  · obtain ⟨entries, b, m, code, left, complaints, hdeals, hes, hstore, hreached, hm, hcut, hrun⟩ :=
      hruns source defaultLimit [] [.text "1\n", .text "2\n"]
    exact ⟨entries, b, m, code, left, complaints, hdeals, hes, hstore, hreached, hm, hcut, hrun _ true hread⟩

end Console
end Calculator
