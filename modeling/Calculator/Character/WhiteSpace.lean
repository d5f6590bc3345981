import Calculator.Character.Ranges
/-!
# Character.WhiteSpace — the White_Space property

The characters that separate and mean nothing: an expression is read without them, and a number is trimmed of them.
-/
namespace Calculator
namespace Character

/-- The characters with the property White_Space. -/
def whiteSpaceRanges : Ranges :=
  [(0x9, 0xD), (0x20, 0x20), (0x85, 0x85), (0xA0, 0xA0), (0x1680, 0x1680), (0x2000, 0x200A), (0x2028, 0x2029),
   (0x202F, 0x202F), (0x205F, 0x205F), (0x3000, 0x3000)]

theorem whiteSpaceRanges_ascending : whiteSpaceRanges.Ascending := by decide +kernel

/-- Whether the character has the property White_Space. -/
def isWhiteSpace (c : Char) : Bool := whiteSpaceRanges.contains c.toNat

end Character
end Calculator
