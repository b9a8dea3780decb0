/-
Table filters: the names of the tables a diagram is restricted to. A filter is
written as names with commas between them; blanks around a name do not count.
It has at least one name and no blank one. The names are kept in rising order
of their code points and each once, so filters with the same names are equal.
-/
import SchemaDiagram.Text.Blank

namespace SchemaDiagram

structure TableFilter where
  names : List String
  rising : names.Pairwise (· < ·)
  deriving DecidableEq, Repr

inductive FilterError
  /-- There is no name at all. -/
  | empty
  /-- The given text is a blank name or holds one. -/
  | blankName (text : String)
  deriving DecidableEq, Repr

def FilterError.message : FilterError → String
  | .empty => "Table filter is empty"
  | .blankName text => "Table filter '" ++ text ++ "' contains an empty table name"

namespace TableFilter

/-- Puts a name in its place among rising ones, unless it is there already. -/
def insertName (name : String) : List String → List String
  | [] => [name]
  | x :: rest =>
    if name < x then name :: x :: rest
    else if name = x then x :: rest
    else x :: insertName name rest

@[simp] theorem mem_insertName {name y : String} {names : List String} :
    y ∈ insertName name names ↔ y = name ∨ y ∈ names := by
  induction names with
  | nil => simp [insertName]
  | cons x rest ih =>
    unfold insertName
    split
    · simp
    · split
      · subst_vars; simp
      · simp only [List.mem_cons, ih]; grind

theorem insertName_rising {name : String} {names : List String}
    (h : names.Pairwise (· < ·)) : (insertName name names).Pairwise (· < ·) := by
  induction names with
  | nil => simp [insertName]
  | cons x rest ih =>
    obtain ⟨hx, hrest⟩ := List.pairwise_cons.1 h
    unfold insertName
    split
    · rename_i hlt
      refine List.pairwise_cons.2 ⟨fun y hy => ?_, h⟩
      rcases List.mem_cons.1 hy with rfl | hy
      · exact hlt
      · exact Std.lt_trans hlt (hx y hy)
    · split
      · exact h
      · rename_i hnlt hne
        refine List.pairwise_cons.2 ⟨fun y hy => ?_, ih hrest⟩
        rcases mem_insertName.1 hy with rfl | hy
        · exact Std.lt_of_le_of_ne (Std.not_lt.1 hnlt) (Ne.symm hne)
        · exact hx y hy

/-- The rising list of the names in a list. -/
def sortedNames (names : List String) : List String := names.foldr insertName []

theorem mem_sortedNames {y : String} {names : List String} :
    y ∈ sortedNames names ↔ y ∈ names := by
  induction names with
  | nil => simp [sortedNames]
  | cons x rest ih => rw [sortedNames] at ih ⊢; simp [ih]

theorem sortedNames_rising (names : List String) : (sortedNames names).Pairwise (· < ·) := by
  induction names with
  | nil => exact .nil
  | cons x rest ih => exact insertName_rising ih

/-- The filter of a list of names. The first blank name is refused, as it was given. -/
def ofNames (names : List String) : Except FilterError TableFilter :=
  match names.find? Text.isAllBlank with
  | some name => .error (.blankName name)
  | none =>
    if names.isEmpty then .error .empty
    else .ok ⟨sortedNames (names.map Text.trim), sortedNames_rising _⟩

/-- The texts between the commas of a text. -/
def pieces (text : String) : List String := (text.toList.splitOn ',').map String.ofList

/-- The filter that a text describes. A blank name among others is reported with the whole
text. -/
def ofText (text : String) : Except FilterError TableFilter :=
  if Text.isAllBlank text then .error .empty
  else
    match ofNames (pieces text) with
    | .error (.blankName _) => .error (.blankName text)
    | result => result

def contains (f : TableFilter) (table : String) : Bool := f.names.contains table

/-- The names with commas between them, which describes the same filter. -/
def text (f : TableFilter) : String := ",".intercalate f.names

end TableFilter

end SchemaDiagram
