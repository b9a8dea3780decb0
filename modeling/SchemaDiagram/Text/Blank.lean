/-
Blank characters, and texts with the blanks taken off both ends. Blank means
the Unicode property White_Space: the zero width space and the byte order mark
are not blank, the no-break space and the line separators are.
-/
import SchemaDiagram.Text.Ranges

namespace SchemaDiagram.Text

/-- The code points of the property White_Space. -/
def blankRanges : List (Nat × Nat) :=
  [(0x9, 0xD), (0x20, 0x20), (0x85, 0x85), (0xA0, 0xA0), (0x1680, 0x1680), (0x2000, 0x200A),
    (0x2028, 0x2029), (0x202F, 0x202F), (0x205F, 0x205F), (0x3000, 0x3000)]

/-- Blanks separate lexemes and are trimmed from names. -/
def isBlank (c : Char) : Bool := inRanges blankRanges c.toNat

/-- A text without the blanks at its two ends. -/
def trimChars (s : List Char) : List Char :=
  ((s.dropWhile isBlank).reverse.dropWhile isBlank).reverse

def trim (s : String) : String := String.ofList (trimChars s.toList)

/-- Whether a text holds nothing but blanks. -/
def isAllBlank (s : String) : Bool := s.toList.all isBlank

theorem isBlank_newline : isBlank '\n' = true := by decide

end SchemaDiagram.Text
