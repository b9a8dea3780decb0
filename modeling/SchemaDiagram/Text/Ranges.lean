/-
Sets of characters given as ranges of code points. The ranges of a set are
listed in rising order, so looking a character up stops at the first range
that begins past it.
-/

namespace SchemaDiagram.Text

/-- Whether `n` lies in one of the ranges, both ends of a range included. -/
def inRanges : List (Nat × Nat) → Nat → Bool
  | [], _ => false
  | (low, high) :: rest, n => low ≤ n && (n ≤ high || inRanges rest n)

end SchemaDiagram.Text
