import Calculator.Proofs.StandardInput
/-!
# Proofs.TextLines — the lines of a text, as bytes and as characters

In UTF-8 the byte of the line feed stands for nothing else, so the bytes of a text are cut into lines where its
characters are (`Console.allOfBytes_toUTF8`).  Whole lines that are put together are cut into these lines again
(`Console.cutAfter_flatten`).
-/
namespace Calculator
namespace Console

theorem toList_loop (bytes : ByteArray) (i : Nat) (r : List UInt8) :
    ByteArray.toList.loop bytes i r = r.reverse ++ bytes.data.toList.drop i := by
  fun_induction ByteArray.toList.loop bytes i r with
  | case1 i r hlt ih =>
    have hlen : i < bytes.data.toList.length := by simpa using hlt
    have hget : bytes.get! i = bytes.data[i]! := by cases bytes; rfl
    rw [ih, List.drop_eq_getElem_cons hlen, hget, getElem!_pos bytes.data i hlt, List.reverse_cons, List.append_assoc,
      List.singleton_append, Array.getElem_toList]
  | case2 i r hlt =>
    have hlen : bytes.data.toList.length ≤ i := by simpa using hlt
    rw [List.drop_eq_nil_of_le hlen, List.append_nil]

theorem toList_toUTF8 (text : String) : text.toUTF8.toList = text.toList.flatMap String.utf8EncodeChar := by
  rw [ByteArray.toList, toList_loop, String.toUTF8_eq_toByteArray, ← String.utf8Encode_toList, List.utf8Encode,
    List.toList_data_toByteArray]
  rfl

theorem ofBytes_utf8 (l : List Char) :
    Line.ofBytes ⟨(l.flatMap String.utf8EncodeChar).toArray⟩ = .text (String.ofList l) := by
  have hbytes : (⟨(l.flatMap String.utf8EncodeChar).toArray⟩ : ByteArray) = (String.ofList l).toByteArray := by
    rw [String.toByteArray_ofList, List.utf8Encode]
    exact ByteArray.ext List.data_toByteArray.symm
  have hdecode : String.fromUTF8? (String.ofList l).toByteArray = some (String.ofList l) := by
    rw [String.fromUTF8?, dif_pos (String.ofList l).isValidUTF8]
    rfl
  rw [Line.ofBytes, hbytes, hdecode]

theorem eq_of_mem_utf8EncodeChar {c : Char} (h : 10 ∈ String.utf8EncodeChar c) : c = '\n' := by
  obtain ⟨i, hi, hbyte⟩ := List.mem_iff_getElem.1 h
  -- no byte of a character but its first is one that a character begins with
  have hfirst : (String.utf8EncodeChar c)[i].IsUTF8FirstByte := by
    rw [hbyte]
    decide
  obtain rfl := UInt8.isUTF8FirstByte_getElem_utf8EncodeChar.1 hfirst
  obtain ⟨byte, rest, hcons⟩ := List.exists_cons_of_ne_nil (@String.utf8EncodeChar_ne_nil c)
  simp only [hcons, List.getElem_cons_zero] at hbyte
  have hencode : ['\n'].utf8Encode ++ rest.toByteArray = [c].utf8Encode := by
    rw [List.utf8Encode_singleton, List.utf8Encode_singleton, hcons, hbyte, ← List.toByteArray_append]
    rfl
  have hprefix := List.isPrefix_of_utf8Encode_append_eq_utf8Encode _ hencode
  exact (List.cons_prefix_cons.1 hprefix).1.symm

section

variable {α : Type} {ends : α → Bool}

theorem cutAfter_cons_of_ends {a : α} (h : ends a = true) (rest : List α) :
    cutAfter ends (a :: rest) = [a] :: cutAfter ends rest := by
  rw [cutAfter, if_pos h]

/-- What does not end a piece goes before the first one. -/
theorem cutAfter_append {rest : List α} : ∀ {l : List α}, l ≠ [] → (∀ a ∈ l, ends a = false) →
    cutAfter ends (l ++ rest) =
      match cutAfter ends rest with
      | [] => [l]
      | piece :: pieces => (l ++ piece) :: pieces
  | [a], _, h => by
    rw [List.singleton_append, cutAfter, if_neg (Bool.eq_false_iff.1 (h a List.mem_cons_self))]
    rfl
  | a :: b :: l, _, h => by
    have ih := @cutAfter_append rest (b :: l) (List.cons_ne_nil b l) fun c hc => h c (List.mem_cons_of_mem a hc)
    rw [List.cons_append, cutAfter, if_neg (Bool.eq_false_iff.1 (h a List.mem_cons_self)), ih]
    cases cutAfter ends rest <;> rfl

end

/-- **The bytes of a text are cut where its characters are.** -/
theorem cutAfter_utf8 : ∀ l : List Char, cutAfter (· == 10) (l.flatMap String.utf8EncodeChar) =
    (cutAfter (· == '\n') l).map (·.flatMap String.utf8EncodeChar)
  | [] => rfl
  | c :: rest => by
    have ih := cutAfter_utf8 rest
    rw [List.flatMap_cons]
    by_cases hc : c = '\n'
    · subst hc
      rw [@cutAfter_cons_of_ends Char (· == '\n') '\n' rfl, List.map_cons, ← ih]
      exact @cutAfter_cons_of_ends UInt8 (· == 10) 10 rfl _
    · have hbytes : ∀ byte ∈ String.utf8EncodeChar c, (byte == 10) = false := fun byte hbyte =>
        beq_false_of_ne fun heq => hc (eq_of_mem_utf8EncodeChar (heq ▸ hbyte))
      rw [cutAfter_append String.utf8EncodeChar_ne_nil hbytes, ih, cutAfter,
        if_neg (Bool.eq_false_iff.1 (beq_false_of_ne hc))]
      cases cutAfter (· == '\n') rest <;> simp

theorem allOfBytes_toUTF8 (text : String) :
    Line.allOfBytes text.toUTF8 = (cutAfter (· == '\n') text.toList).map fun l => .text (String.ofList l) := by
  rw [Line.allOfBytes, toList_toUTF8, cutAfter_utf8, List.map_map]
  exact List.map_congr_left fun l _ => ofBytes_utf8 l

/-! ## Whole lines -/

/-- A line with its line feed. -/
def IsLine (l : List Char) : Prop := ∃ front, l = front ++ ['\n'] ∧ '\n' ∉ front

theorem cutAfter_flatten : ∀ {pieces : List (List Char)}, (∀ piece ∈ pieces, IsLine piece) →
    cutAfter (· == '\n') pieces.flatten = pieces
  | [], _ => rfl
  | piece :: pieces, h => by
    have ih := cutAfter_flatten fun p hp => h p (List.mem_cons_of_mem piece hp)
    obtain ⟨front, rfl, hfront⟩ := h piece List.mem_cons_self
    have hcut : cutAfter (· == '\n') ('\n' :: pieces.flatten) = ['\n'] :: pieces := by
      rw [cutAfter_cons_of_ends rfl, ih]
    rw [List.flatten_cons, List.append_assoc, List.singleton_append]
    rcases List.eq_nil_or_concat front with rfl | ⟨_, _, rfl⟩
    · exact hcut
    · have hne : ∀ c ∈ _, (c == '\n') = false := fun c hc => beq_false_of_ne fun heq => hfront (heq ▸ hc)
      rw [cutAfter_append (by simp) hne, hcut]

/-- A text that ends in a line feed, or is empty, is cut into whole lines. -/
theorem isLine_of_mem_cutAfter {text : List Char} (h : text = [] ∨ text.getLast? = some '\n') :
    ∀ piece ∈ cutAfter (· == '\n') text, IsLine piece := by
  intro piece hpiece
  obtain ⟨before, after, hcut⟩ := List.append_of_mem hpiece
  obtain ⟨front, last, rfl, hfront, hlast⟩ := exists_concat_of_cutAfter text before piece hcut
  have hfront : '\n' ∉ front := fun hmem => by simpa using hfront '\n' hmem
  refine ⟨front, ?_, hfront⟩
  rcases List.eq_nil_or_concat after with rfl | ⟨_, _, rfl⟩
  · have htext : text = before.flatten ++ front ++ [last] := by
      rw [← flatten_cutAfter (· == '\n') text, hcut]
      simp
    rw [htext] at h
    simpa using h
  · have : last = '\n' := by simpa using hlast (by simp)
    rw [this]

theorem not_mem_withoutLineEnd {front : List Char} {last : Char} (h : '\n' ∉ front) :
    '\n' ∉ withoutLineEnd (front ++ [last]) := by
  unfold withoutLineEnd
  rw [List.reverse_append, List.reverse_singleton, List.singleton_append]
  split
  · rename_i hrest
    obtain ⟨-, hrest⟩ := List.cons.inj hrest
    exact fun hmem => h (List.mem_reverse.1 (hrest ▸ List.mem_cons_of_mem _ (List.mem_reverse.1 hmem)))
  · rename_i hrest
    obtain ⟨-, rfl⟩ := List.cons.inj hrest
    rwa [List.reverse_reverse]
  · rename_i hrest
    intro hmem
    rcases List.mem_append.1 hmem with hmem | hmem
    · exact h hmem
    · exact hrest front.reverse (by rw [List.mem_singleton.1 hmem])

/-- No line of a script has a line feed in it. -/
theorem not_mem_of_mem_scriptLines {script line : String} (h : line ∈ scriptLines script) : '\n' ∉ line.toList := by
  obtain ⟨piece, hpiece, rfl⟩ := List.mem_map.1 h
  obtain ⟨before, after, hcut⟩ := List.append_of_mem hpiece
  obtain ⟨front, last, rfl, hfront, -⟩ := exists_concat_of_cutAfter script.toList before piece hcut
  rw [String.toList_ofList]
  exact not_mem_withoutLineEnd fun hmem => by simpa using hfront '\n' hmem

end Console
end Calculator
