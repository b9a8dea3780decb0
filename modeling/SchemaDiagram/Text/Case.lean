/-
Comparing words without regard to case. Only the letters A to Z have a case
here, so the Kelvin sign is no `k` and a dotted capital I is no `i`.
-/

namespace SchemaDiagram.Text

/-- Whether two texts are the same word up to the case of the letters A to Z. -/
def sameWord (a b : String) : Bool :=
  a.toList.map Char.toLower == b.toList.map Char.toLower

theorem sameWord_refl (a : String) : sameWord a a = true := by
  simp [sameWord]

end SchemaDiagram.Text
