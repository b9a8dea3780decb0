/-
Counting lines. A line ends at a newline character and at nothing else, so the
line of a place in a text is one more than the number of newlines before it.
-/

namespace SchemaDiagram.Text

/-- The number of newlines in a text. -/
def newlines (s : List Char) : Nat := s.count '\n'

@[simp] theorem newlines_nil : newlines [] = 0 := rfl

@[simp] theorem newlines_append (s t : List Char) : newlines (s ++ t) = newlines s + newlines t :=
  List.count_append

theorem newlines_cons (c : Char) (s : List Char) :
    newlines (c :: s) = newlines s + if c = '\n' then 1 else 0 := by
  simp [newlines, List.count_cons]

end SchemaDiagram.Text
