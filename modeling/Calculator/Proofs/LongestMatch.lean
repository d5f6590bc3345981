import Calculator.Machine
import Calculator.Proofs.Branches
import Calculator.Proofs.Span
import Mathlib.Computability.Language
/-!
# Proofs.LongestMatch — the first lexeme of a text is the longest match of a pattern

The lexemes of a kind are a regular language (`Lexeme.pattern`).  The first character of a text tells which kind begins
there, if any, and the lexeme that is split off is the longest match of all patterns; where none begins, nothing is
taken (`Cursor.recognizes`).
-/
namespace Calculator

open Computability

/-- The texts of one character of a class. -/
def oneOf (p : Char → Prop) : Language Char := {w | ∃ c, w = [c] ∧ p c}

theorem mem_kstar_oneOf {p : Char → Prop} {w : List Char} : w ∈ (oneOf p)∗ ↔ ∀ c ∈ w, p c := by
  rw [Language.mem_kstar]
  constructor
  · rintro ⟨pieces, rfl, hpieces⟩ c hc
    obtain ⟨piece, hpiece, hc⟩ := List.mem_flatten.1 hc
    obtain ⟨d, rfl, hd⟩ := hpieces piece hpiece
    rwa [List.mem_singleton.1 hc]
  · intro hw
    refine ⟨w.map fun c => [c], by rw [← List.flatMap_def, List.flatMap_singleton'], fun piece hpiece => ?_⟩
    obtain ⟨c, hc, rfl⟩ := List.mem_map.1 hpiece
    exact ⟨c, rfl, hw c hc⟩

theorem mem_oneOf_mul_kstar {p q : Char → Prop} {w : List Char} :
    w ∈ oneOf p * (oneOf q)∗ ↔ ∃ c rest, w = c :: rest ∧ p c ∧ ∀ d ∈ rest, q d := by
  rw [Language.mem_mul]
  constructor
  · rintro ⟨_, ⟨c, rfl, hc⟩, rest, hrest, rfl⟩
    exact ⟨c, rest, rfl, hc, mem_kstar_oneOf.1 hrest⟩
  · rintro ⟨c, rest, rfl, hc, hrest⟩
    exact ⟨[c], ⟨c, rfl, hc⟩, rest, mem_kstar_oneOf.2 hrest, rfl⟩

namespace Lexeme

/-- What the lexemes of a kind look like: `[-0-9][0-9.]*` is a number, and a name begins with an alphabetic character
and goes on with these and with decimal digits of any script. -/
def pattern : Lexeme → Language Char
  | number => oneOf (fun c => c = '-' ∨ '0' ≤ c ∧ c ≤ '9') * (oneOf fun c => '0' ≤ c ∧ c ≤ '9' ∨ c = '.')∗
  | name =>
    oneOf (fun c => Character.isAlphabetic c = true) *
      (oneOf fun c => Character.isAlphabetic c = true ∨ Character.isDecimalDigit c = true)∗

theorem isDigit_iff {c : Char} : c.isDigit = true ↔ '0' ≤ c ∧ c ≤ '9' := by
  rw [Char.isDigit, Bool.and_eq_true, decide_eq_true_iff, decide_eq_true_iff]
  exact Iff.rfl

/-- **The texts of a pattern are what the kind covers.** -/
theorem mem_pattern {kind : Lexeme} {span : List Char} : span ∈ kind.pattern ↔ kind.covers span = true := by
  rw [covers_iff]
  cases kind with
  | number =>
    simp only [pattern, mem_oneOf_mul_kstar, starts, continues, Bool.or_eq_true, beq_iff_eq, isDigit_iff, or_comm]
  | name => simp only [pattern, mem_oneOf_mul_kstar, starts, continues, Bool.or_eq_true]

/-- Whether a span is the longest match at the start of a text, among the matches of every kind. -/
structure IsLongest (kind : Lexeme) (text span : List Char) : Prop where
  mem : span ∈ kind.pattern
  le : span <+: text
  longest : ∀ (other : Lexeme) (shorter : List Char), shorter ∈ other.pattern → shorter <+: text →
    other = kind ∧ shorter.length ≤ span.length

theorem IsLongest.unique {kind kind' : Lexeme} {text span span' : List Char} (h : kind.IsLongest text span)
    (h' : kind'.IsLongest text span') : kind' = kind ∧ span' = span := by
  obtain ⟨hkind, hle⟩ := h.longest kind' span' h'.mem h'.le
  obtain ⟨-, hge⟩ := h'.longest kind span h.mem h.le
  exact ⟨hkind, (List.prefix_of_prefix_length_le h'.le h.le hle).eq_of_length (Nat.le_antisymm hle hge)⟩

theorem eq_of_starts {kind other : Lexeme} {c : Char} (h : kind.starts c = true) (ho : other.starts c = true) :
    other = kind :=
  Option.some.inj ((ofChar?_of_starts ho).symm.trans (ofChar?_of_starts h))

/-- A span that is covered, and ends where it could not go on, is the longest match. -/
theorem isLongest_of_ends {kind : Lexeme} {span rest : List Char} (hs : kind.covers span = true)
    (hr : kind.Ends rest) : kind.IsLongest (span ++ rest) span where
  mem := mem_pattern.2 hs
  le := List.prefix_append span rest
  longest other more hmem hle := by
    obtain ⟨c, tail, rfl, hc, htail⟩ := covers_iff.1 hs
    obtain ⟨d, tail', rfl, hd, htail'⟩ := covers_iff.1 (mem_pattern.1 hmem)
    rw [List.cons_append, List.cons_prefix_cons] at hle
    obtain ⟨rfl, htails⟩ := hle
    obtain rfl := eq_of_starts hc hd
    refine ⟨rfl, Nat.succ_le_succ (Nat.le_of_not_lt fun hlt => ?_)⟩
    -- a longer match would go on with the character that ends the span
    obtain ⟨between, rfl⟩ := List.prefix_of_prefix_length_le (List.prefix_append tail rest) htails hlt.le
    rw [List.prefix_append_right_inj] at htails
    cases between with
    | nil => simp at hlt
    | cons e between =>
      obtain ⟨after, rfl⟩ := htails
      have hcontinues := htail' e (List.mem_append_right tail List.mem_cons_self)
      rw [hr e rfl] at hcontinues
      cases hcontinues

/-- Where a lexeme begins, what is split off is the longest match. -/
theorem isLongest_split {kind : Lexeme} {c : Char} (rest : List Char) (h : kind.starts c = true) :
    kind.IsLongest (c :: rest) (kind.split (c :: rest)).1 := by
  obtain ⟨span, tail, htext, hs, hr, hsplit⟩ := exists_split rest h
  rw [hsplit, htext]
  exact isLongest_of_ends hs hr

theorem first?_of_starts {kind : Lexeme} {c : Char} (rest : List Char) (h : kind.starts c = true) :
    first? (c :: rest) = some (kind, kind.split (c :: rest)) := by
  rw [first?, ofChar?_of_starts h, Option.map_some]

/-- **The first lexeme is the longest match.** -/
theorem first?_eq_some {kind : Lexeme} {text span rest : List Char} :
    first? text = some (kind, span, rest) ↔ kind.IsLongest text span ∧ text = span ++ rest := by
  constructor
  · intro h
    rcases text with _ | ⟨c, tail⟩
    · cases h
    · obtain ⟨other, hother, heq⟩ := Option.map_eq_some_iff.1 h
      obtain ⟨rfl, hsplit⟩ := Prod.mk.inj heq
      have hlongest := isLongest_split tail (starts_of_ofChar? hother)
      have happend := other.split_append (c :: tail)
      rw [hsplit] at hlongest happend
      exact ⟨hlongest, happend.symm⟩
  · rintro ⟨h, htext⟩
    obtain ⟨c, tail, rfl, hc, -⟩ := covers_iff.1 (mem_pattern.1 h.mem)
    rw [List.cons_append] at htext
    subst htext
    obtain ⟨-, hspan⟩ := h.unique (isLongest_split (tail ++ rest) hc)
    have happend := kind.split_append (c :: (tail ++ rest))
    rw [hspan, List.cons_append] at happend
    have hrest := List.append_cancel_left (List.cons.inj happend).2
    rw [first?_of_starts (tail ++ rest) hc]
    exact congrArg (fun found => some (kind, found)) (Prod.ext hspan hrest)

theorem first?_eq_none {text : List Char} :
    first? text = none ↔ ∀ c ∈ text.head?, ∀ kind : Lexeme, kind.starts c = false := by
  rcases text with _ | ⟨c, rest⟩
  · exact ⟨fun _ => nofun, fun _ => rfl⟩
  · rw [first?, Option.map_eq_none_iff]
    constructor
    · intro h d hd
      cases hd
      exact not_starts_of_ofChar? h
    · intro h
      refine Option.eq_none_iff_forall_ne_some.2 fun kind hkind => ?_
      have hc := starts_of_ofChar? hkind
      rw [h c rfl kind] at hc
      cases hc

end Lexeme

namespace Machine

variable {text span rest : List Char} (limit : Nat) (outer : List Pending) (here : Pending)

theorem operandStep_of_first_name (h : Lexeme.first? text = some (.name, span, rest)) :
    operandStep limit outer here text = .lookup (String.ofList span) outer here rest := by
  rcases text with _ | ⟨c, tail⟩
  · cases h
  · obtain ⟨kind, hkind, heq⟩ := Option.map_eq_some_iff.1 h
    obtain ⟨rfl, hsplit⟩ := Prod.mk.inj heq
    simp only [operandStep, hkind, hsplit]

theorem operandStep_of_first_number (h : Lexeme.first? text = some (.number, span, rest)) :
    operandStep limit outer here text =
      match Number.read (String.ofList span) with
      | .error fault => .stop (.error fault) rest
      | .ok value => supply outer here value rest := by
  rcases text with _ | ⟨c, tail⟩
  · cases h
  · obtain ⟨kind, hkind, heq⟩ := Option.map_eq_some_iff.1 h
    obtain ⟨rfl, hsplit⟩ := Prod.mk.inj heq
    cases hread : Number.read (String.ofList span) with
    | error fault => simp only [operandStep, hkind, hsplit, hread]
    | ok value => simp only [operandStep, hkind, hsplit, hread]

end Machine

namespace Cursor

/-- What stands ahead of a cursor, and what is taken for it. -/
structure Recognizes (c : Cursor) : Prop where
  /-- The first lexeme is the longest match of all patterns. -/
  first_iff : ∀ kind span rest, Lexeme.first? c.ahead = some (kind, span, rest) ↔
    kind.IsLongest c.ahead span ∧ c.ahead = span ++ rest
  /-- It ends where a character does. -/
  boundary : ∀ kind span rest, Lexeme.first? c.ahead = some (kind, span, rest) →
    (⟨byteLength span⟩ : String.Pos.Raw).IsValid c.remaining
  /-- Its kind is the one that begins with the next character. -/
  kind_iff : ∀ kind, (∃ found, Lexeme.first? c.ahead = some (kind, found)) ↔ ∃ next ∈ c.peek?, kind.starts next = true
  /-- No character begins both kinds. -/
  exclusive : ∀ next, ¬ (Lexeme.number.starts next = true ∧ Lexeme.name.starts next = true)
  /-- There is none before any other character, nor where the text ends. -/
  none_iff : Lexeme.first? c.ahead = none ↔ ∀ next ∈ c.peek?, ∀ kind : Lexeme, kind.starts next = false
  /-- An operand that is a name is looked up by the whole lexeme. -/
  name : ∀ span rest, Lexeme.first? c.ahead = some (.name, span, rest) → ∀ limit outer here,
    Machine.operandStep limit outer here c.ahead = .lookup (String.ofList span) outer here rest
  /-- An operand that is a number is read from the whole lexeme. -/
  number : ∀ span rest, Lexeme.first? c.ahead = some (.number, span, rest) → ∀ limit outer here,
    Machine.operandStep limit outer here c.ahead =
      match Number.read (String.ofList span) with
      | .error fault => .stop (.error fault) rest
      | .ok value => Machine.supply outer here value rest
  /-- What is taken for a kind that begins here is its longest match, and not empty. -/
  take : ∀ kind, ∀ next ∈ c.peek?, kind.starts next = true →
    (c.take kind).1 ≠ "" ∧ kind.IsLongest c.ahead (c.take kind).1.toList
  /-- In any other case nothing is taken. -/
  stay : ∀ kind, (∀ next ∈ c.peek?, kind.starts next = false) → c.take kind = ("", c)

theorem take_fst (c : Cursor) (kind : Lexeme) : (c.take kind).1.toList = (kind.split c.ahead).1 :=
  String.toList_ofList

theorem isValid_byteLength {text span rest : List Char} (h : text = span ++ rest) :
    (⟨byteLength span⟩ : String.Pos.Raw).IsValid (String.ofList text) :=
  String.Pos.Raw.isValid_iff_exists_append.2 ⟨String.ofList span, String.ofList rest, by rw [h, String.ofList_append],
    congrArg String.Pos.Raw.mk (byteLength_eq span)⟩

/-- **The first lexeme of a text is the longest match of the patterns**, its first character tells the kind, and a
cursor takes just this lexeme for its kind and nothing for the other. -/
theorem recognizes (c : Cursor) : c.Recognizes where
  first_iff kind span rest := Lexeme.first?_eq_some
  boundary kind span rest h := isValid_byteLength (Lexeme.first?_eq_some.1 h).2
  kind_iff kind := by
    constructor
    · rintro ⟨⟨span, rest⟩, h⟩
      obtain ⟨hlongest, htext⟩ := Lexeme.first?_eq_some.1 h
      obtain ⟨next, tail, rfl, hnext, -⟩ := Lexeme.covers_iff.1 (Lexeme.mem_pattern.1 hlongest.mem)
      exact ⟨next, by rw [peek?, htext]; rfl, hnext⟩
    · rintro ⟨next, hpeek, hnext⟩
      obtain ⟨rest, htext⟩ := List.head?_eq_some_iff.1 hpeek
      exact ⟨_, htext ▸ Lexeme.first?_of_starts rest hnext⟩
  exclusive next := by
    rintro ⟨hnumber, hname⟩
    rw [Lexeme.not_name_of_number hnumber] at hname
    cases hname
  none_iff := Lexeme.first?_eq_none
  name span rest h limit outer here := Machine.operandStep_of_first_name limit outer here h
  number span rest h limit outer here := Machine.operandStep_of_first_number limit outer here h
  take kind next hpeek hnext := by
    obtain ⟨rest, htext⟩ := List.head?_eq_some_iff.1 hpeek
    have hlongest := Lexeme.isLongest_split rest hnext
    rw [← htext, ← take_fst] at hlongest
    refine ⟨fun hempty => ?_, hlongest⟩
    obtain ⟨first, tail, hcons, -⟩ := Lexeme.covers_iff.1 (Lexeme.mem_pattern.1 hlongest.mem)
    rw [hempty] at hcons
    cases hcons
  stay kind h := by
    obtain ⟨source, position, _ | ⟨next, rest⟩⟩ := c
    · rfl
    · have hnext : ¬ kind.starts next = true := by
        rw [h next rfl]
        exact Bool.false_ne_true
      simp only [Cursor.take, Lexeme.split, if_neg hnext]
      rfl

/-- A letter number begins a name, a combining mark that is alphabetic goes on with it, and so does a digit of another
script; a digit of another script begins nothing. -/
example : ["Ⅻ\u0345٣.5", "٣x", "-1.2.3e5"].map (fun text => Lexeme.first? text.toList) =
    [some (.name, "Ⅻ\u0345٣".toList, ".5".toList), none, some (.number, "-1.2.3".toList, "e5".toList)] := by
  decide +kernel

end Cursor
end Calculator
