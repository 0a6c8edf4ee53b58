import MonkeyLang.Text.Ranges

namespace MonkeyLang.Text

/-- The code points of white space, as ranges with both ends included. Besides the ASCII
ones they are the line and paragraph separators and the spaces of other scripts and
widths. -/
def blankRanges : List (Nat × Nat) :=
  [(0x09, 0x0D), (0x20, 0x20), (0x85, 0x85), (0xA0, 0xA0), (0x1680, 0x1680), (0x2000, 0x200A),
    (0x2028, 0x2029), (0x202F, 0x202F), (0x205F, 0x205F), (0x3000, 0x3000)]

/-- Whether a character is white space in any script. -/
def isBlank (c : Char) : Bool := inRanges blankRanges c

/-- White space in the narrow sense is white space in any script. -/
theorem isBlank_of_isWhitespace {c : Char} (hc : c.isWhitespace = true) : isBlank c = true := by
  simp only [Char.isWhitespace, Bool.or_eq_true, decide_eq_true_eq] at hc
  rcases hc with ((rfl | rfl) | rfl) | rfl <;> decide

end MonkeyLang.Text
