import Mathlib.Tactic.SplitIfs
import Calculator.Proofs.TextLines
/-!
# Proofs.ByteOrder — texts in the order of their bytes

In UTF-8 a character of a greater code point has a greater first byte or the same one, and the bytes after that are
digits to the base 64.  So texts compare by their bytes as they compare by their code points (`toUTF8_lt_iff`).
-/
namespace Calculator

/-- Lists compare by what their elements compare by. -/
theorem map_lt_map_iff {α β : Type} [LT α] [LT β] {f : α → β} (hlt : ∀ a b, f a < f b ↔ a < b)
    (heq : ∀ a b, f a = f b ↔ a = b) : ∀ l l' : List α, l.map f < l'.map f ↔ l < l'
  | _, [] => iff_of_false (List.not_lt_nil _) (List.not_lt_nil _)
  | [], b :: l' => iff_of_true (List.nil_lt_cons _ _) (List.nil_lt_cons b l')
  | a :: l, b :: l' => by
    rw [List.map_cons, List.map_cons, List.cons_lt_cons_iff, List.cons_lt_cons_iff, hlt, heq,
      map_lt_map_iff hlt heq l l']

/-- The bytes that encode a code point, as numbers. -/
def utf8Codes (v : Nat) : List Nat :=
  if v ≤ 0x7F then [v]
  else if v ≤ 0x7FF then [v / 64 + 192, v % 64 + 128]
  else if v ≤ 0xFFFF then [v / 4096 + 224, v / 64 % 64 + 128, v % 64 + 128]
  else [v / 262144 + 240, v / 4096 % 64 + 128, v / 64 % 64 + 128, v % 64 + 128]

theorem map_toNat_utf8EncodeChar (c : Char) : (String.utf8EncodeChar c).map UInt8.toNat = utf8Codes c.toNat := by
  have hc : c.val.toNat < 0x110000 := by
    rcases c.valid with h | h
    · exact Nat.lt_trans h (by decide)
    · exact h.2
  unfold String.utf8EncodeChar utf8Codes Char.toNat
  generalize c.val.toNat = v at hc
  dsimp only
  split_ifs <;> simp only [List.map_cons, List.map_nil, UInt8.toNat_ofNat', List.cons.injEq, and_true] <;> omega

/-- What comes after two characters is compared only if these are the same. -/
theorem utf8Codes_append_lt (v w : Nat) (s t : List Nat) :
    utf8Codes v ++ s < utf8Codes w ++ t ↔ v < w ∨ v = w ∧ s < t := by
  unfold utf8Codes
  by_cases h : s < t
  all_goals
    -- by the number of bytes on either side
    split_ifs <;>
      simp only [List.cons_append, List.nil_append, List.cons_lt_cons_iff, h, and_true, and_false, or_false] <;> omega

theorem flatMap_utf8Codes_lt : ∀ l l' : List Nat, l.flatMap utf8Codes < l'.flatMap utf8Codes ↔ l < l'
  | _, [] => iff_of_false (List.not_lt_nil _) (List.not_lt_nil _)
  | [], w :: l' => by
    refine iff_of_true ?_ (List.nil_lt_cons w l')
    rw [List.flatMap_cons, List.flatMap_nil]
    unfold utf8Codes
    split_ifs <;> exact List.nil_lt_cons _ _
  | v :: l, w :: l' => by
    rw [List.flatMap_cons, List.flatMap_cons, utf8Codes_append_lt, flatMap_utf8Codes_lt l l', List.cons_lt_cons_iff]

theorem codePoints_lt_iff {a b : String} : a.toList.map Char.toNat < b.toList.map Char.toNat ↔ a < b := by
  rw [String.lt_iff]
  exact map_lt_map_iff (f := Char.toNat) (fun _ _ => Iff.rfl) (fun _ _ => Char.toNat_inj) _ _

/-- **The order of the bytes is the order of the code points.** -/
theorem toUTF8_lt_iff {a b : String} : a.toUTF8.toList < b.toUTF8.toList ↔ a < b := by
  have hbytes : ∀ text : String, text.toUTF8.toList.map UInt8.toNat = (text.toList.map Char.toNat).flatMap utf8Codes :=
    fun text => by
      rw [Console.toList_toUTF8, List.map_flatMap, List.flatMap_map]
      exact congrArg (text.toList.flatMap ·) (funext map_toNat_utf8EncodeChar)
  rw [← map_lt_map_iff (f := UInt8.toNat) (fun _ _ => UInt8.lt_iff_toNat_lt.symm) (fun _ _ => UInt8.toNat_inj), hbytes,
    hbytes, flatMap_utf8Codes_lt, codePoints_lt_iff]

end Calculator
