/-
The lines of a diagram: how many there are, and which names can change that.

Column names and types are single words, so a column takes one line whatever
it is called. The names of tables and the fields of relationships are written
between quotes, where a newline stays what it is. So a diagram has a line for
each thing it draws, and one more for each newline in such a name
(`length_lines_convert`): a name can break a line, and with the right
characters around the newline it can also pass for another line.
-/
import Mathlib.Algebra.Ring.Nat
import SchemaDiagram.Converter
import SchemaDiagram.Proofs.Restriction

namespace SchemaDiagram

/-! ## Lines of a text -/

namespace Text

/-- The lines of a text: what a newline ends, and what stands behind the last newline unless that is
nothing. -/
def linesOf : List Char → List (List Char)
  | [] => []
  | c :: s =>
    if c = '\n' then [] :: linesOf s
    else
      match linesOf s with
      | [] => [[c]]
      | l :: ls => (c :: l) :: ls

theorem linesOf_append {l : List Char} (s : List Char) (h : '\n' ∉ l) :
    linesOf (l ++ '\n' :: s) = l :: linesOf s := by
  induction l with
  | nil => rfl
  | cons c l ih =>
    simp only [List.mem_cons, not_or] at h
    rw [List.cons_append, linesOf, if_neg (Ne.symm h.1), ih h.2]

theorem length_linesOf_append (s t : List Char) :
    (linesOf (s ++ '\n' :: t)).length = newlines s + 1 + (linesOf t).length := by
  induction s with
  | nil =>
    simp [linesOf]
    omega
  | cons c s ih =>
    rw [List.cons_append, linesOf, newlines_cons]
    by_cases hc : c = '\n'
    · rw [if_pos hc, if_pos hc, List.length_cons, ih]
      omega
    · rw [if_neg hc, if_neg hc]
      -- The text behind `c` has a line, and `c` goes in front of it.
      cases hlines : linesOf (s ++ '\n' :: t) with
      | nil =>
        rw [hlines, List.length_nil] at ih
        omega
      | cons l ls =>
        rw [hlines] at ih
        simpa using ih

theorem newlines_eq_zero_iff {s : List Char} : newlines s = 0 ↔ '\n' ∉ s := List.count_eq_zero

/-- Characters that are put in the place of others keep the lines if they keep the newlines. -/
theorem newlines_map {f : Char → Char} (h : ∀ c, f c = '\n' ↔ c = '\n') (s : List Char) :
    newlines (s.map f) = newlines s := by
  induction s with
  | nil => rfl
  | cons c s ih =>
    rw [List.map_cons, newlines_cons, newlines_cons, ih]
    simp only [h]

end Text

/-- No name of a table and no name in a relationship holds a newline. -/
structure Schema.NamesOnOneLine (s : Schema) : Prop where
  tables : ∀ t ∈ s.tables, '\n' ∉ t.name.toList
  relationships : ∀ r ∈ s.relationships, '\n' ∉ r.fromTable.toList ∧ '\n' ∉ r.fromField.toList ∧
    '\n' ∉ r.toTable.toList ∧ '\n' ∉ r.toField.toList

theorem Schema.NamesOnOneLine.restrict {s : Schema} (h : s.NamesOnOneLine) (c : Config) :
    (c.restrict s).NamesOnOneLine where
  tables := fun t ht => h.tables t (List.mem_filter.1 ht).1
  relationships := fun r hr => h.relationships r (List.mem_filter.1 hr).1

namespace Diagram

/-! ## Lines of a list of texts -/

/-- The number of lines that texts take, a newline behind each of them. -/
def height (ls : List String) : Nat := (ls.map fun l => Text.newlines l.toList + 1).sum

theorem height_append (ls ls' : List String) : height (ls ++ ls') = height ls + height ls' := by
  simp [height]

theorem height_cons (l : String) (ls : List String) :
    height (l :: ls) = Text.newlines l.toList + 1 + height ls := by
  simp [height]

theorem toList_unlines_cons (l : String) (ls : List String) :
    (unlines (l :: ls)).toList = l.toList ++ '\n' :: (unlines ls).toList := by
  simp [unlines]

theorem length_linesOf_unlines (ls : List String) :
    (Text.linesOf (unlines ls).toList).length = height ls := by
  induction ls with
  | nil => rfl
  | cons l ls ih => rw [toList_unlines_cons, Text.length_linesOf_append, ih, height_cons]

theorem linesOf_unlines {ls : List String} (h : ∀ l ∈ ls, '\n' ∉ l.toList) :
    Text.linesOf (unlines ls).toList = ls.map String.toList := by
  induction ls with
  | nil => rfl
  | cons l ls ih =>
    rw [toList_unlines_cons, Text.linesOf_append _ (h l (by simp)), ih fun l' hl' => h l' (by simp [hl'])]
    rfl

/-! ## Newlines in names -/

theorem newlines_withoutQuotes (s : String) :
    Text.newlines (withoutQuotes s).toList = Text.newlines s.toList := by
  rw [withoutQuotes, String.toList_map]
  apply Text.newlines_map
  intro c
  by_cases hc : c = '"'
  · subst hc
    decide
  · rw [if_neg hc]

theorem newlines_entityName (name : String) :
    Text.newlines (entityName name).toList = Text.newlines name.toList := by
  unfold entityName
  split
  · rfl
  · simp only [String.toList_append, Text.newlines_append, newlines_withoutQuotes]
    have hquote : Text.newlines "\"".toList = 0 := by decide
    omega

theorem isWordChar_of_mem_attributeWord {c : Char} {s : String} (h : c ∈ (attributeWord s).toList) :
    isWordChar c = true := by
  rw [attributeWord, String.toList_map] at h
  obtain ⟨d, -, hd⟩ := List.mem_map.1 h
  split at hd
  next hword => exact hd ▸ hword
  next =>
    subst hd
    decide +kernel

theorem newline_not_mem_attributeWord (s : String) : '\n' ∉ (attributeWord s).toList := by
  have hnewline : ¬ isWordChar '\n' = true := by decide +kernel
  exact fun hmem => hnewline (isWordChar_of_mem_attributeWord hmem)

/-! ## Newlines in lines -/

theorem newlines_columnLine (table : String) (rs : List Relationship) (c : Column) :
    Text.newlines (columnLine table rs c).toList = 0 := by
  have htype := Text.newlines_eq_zero_iff.2 (newline_not_mem_attributeWord c.type)
  have hname := Text.newlines_eq_zero_iff.2 (newline_not_mem_attributeWord c.name)
  have hindent : Text.newlines "        ".toList = 0 := by decide
  have hblank : Text.newlines " ".toList = 0 := by decide
  simp only [columnLine, String.toList_append, Text.newlines_append, htype, hname, hindent, hblank,
    Nat.zero_add]
  cases keyMarker? table c rs with
  | none => rfl
  | some marker => cases marker <;> decide

theorem newlines_relationshipLine (r : Relationship) :
    Text.newlines (relationshipLine r).toList =
      Text.newlines r.fromTable.toList + Text.newlines r.fromField.toList +
        Text.newlines r.toTable.toList + Text.newlines r.toField.toList := by
  have hindent : Text.newlines "    ".toList = 0 := by decide
  have hblank : Text.newlines " ".toList = 0 := by decide
  have hcolon : Text.newlines " : \"".toList = 0 := by decide
  have hquote : Text.newlines "\"".toList = 0 := by decide
  have hfoot : Text.newlines (crowsFoot r.cardinality).toList = 0 := by
    cases r.cardinality <;> decide
  have hoperator : Text.newlines r.cardinality.operator.toList = 0 := by
    cases r.cardinality <;> decide
  simp only [relationshipLine, String.toList_append, Text.newlines_append, newlines_entityName,
    newlines_withoutQuotes, Relationship.label, hindent, hblank, hcolon, hquote, hfoot, hoperator,
    Nat.zero_add, Nat.add_zero]
  omega

theorem height_tableLines (rs : List Relationship) (t : Table) :
    height (tableLines rs t) = t.columns.length + 2 + Text.newlines t.name.toList := by
  have hindent : Text.newlines "    ".toList = 0 := by decide
  have hopening : Text.newlines " \x7b".toList = 0 := by decide
  have hclosing : height ["    \x7d"] = 1 := by decide
  have hcolumns (cs : List Column) : height (cs.map (columnLine t.name rs)) = cs.length := by
    induction cs with
    | nil => rfl
    | cons c cs ih =>
      rw [List.map_cons, height_cons, newlines_columnLine, ih, List.length_cons]
      omega
  rw [tableLines, height_cons, height_append, hcolumns, hclosing]
  simp only [String.toList_append, Text.newlines_append, newlines_entityName, hindent, hopening]
  omega

theorem height_relationshipLines (rs : List Relationship) :
    height (rs.map relationshipLine) = rs.length + (rs.map fun r =>
      Text.newlines r.fromTable.toList + Text.newlines r.fromField.toList +
        Text.newlines r.toTable.toList + Text.newlines r.toField.toList).sum := by
  induction rs with
  | nil => rfl
  | cons r rs ih =>
    rw [List.map_cons, height_cons, newlines_relationshipLine, ih, List.map_cons, List.sum_cons,
      List.length_cons]
    omega

theorem height_tables (rs : List Relationship) (ts : List Table) :
    height (ts.flatMap (tableLines rs)) = (ts.map fun t => t.columns.length + 2).sum +
      (ts.map fun t => Text.newlines t.name.toList).sum := by
  induction ts with
  | nil => rfl
  | cons t ts ih =>
    rw [List.flatMap_cons, height_append, height_tableLines, ih]
    simp only [List.map_cons, List.sum_cons]
    omega

theorem newlines_intercalate {separator : List Char} {ls : List (List Char)}
    (hseparator : Text.newlines separator = 0) (h : ∀ l ∈ ls, Text.newlines l = 0) :
    Text.newlines (separator.intercalate ls) = 0 := by
  induction ls with
  | nil => rfl
  | cons l ls ih =>
    have hl := h l (by simp)
    have hls := ih fun l' hl' => h l' (by simp [hl'])
    cases ls with
    | nil => simpa using hl
    | cons l' ls =>
      rw [List.intercalate_cons_cons, Text.newlines_append, Text.newlines_append, hl, hseparator, hls]

theorem newlines_directive {p : Preset}
    (h : ∀ a ∈ p.assignments, Text.newlines a.1.toList = 0 ∧ Text.newlines a.2.toList = 0) :
    Text.newlines p.directive.toList = 0 := by
  have hname : Text.newlines p.theme.name.toList = 0 := by cases p.theme <;> decide
  have hopening : Text.newlines "%%\x7binit: \x7b'theme': '".toList = 0 := by decide
  have hvariables : Text.newlines "', 'themeVariables': \x7b".toList = 0 := by decide
  have hclosing : Text.newlines "\x7d\x7d\x7d%%".toList = 0 := by decide
  have hquote : Text.newlines "'".toList = 0 := by decide
  have hcolon : Text.newlines "': '".toList = 0 := by decide
  have hseparator : Text.newlines ", ".toList = 0 := by decide
  have hinner : ∀ (ls : List String), (∀ l ∈ ls, Text.newlines l.toList = 0) →
      Text.newlines (", ".intercalate ls).toList = 0 := by
    intro ls hls
    rw [String.toList_intercalate]
    apply newlines_intercalate hseparator
    intro l hl
    obtain ⟨x, hx, rfl⟩ := List.mem_map.1 hl
    exact hls x hx
  have hassignment : ∀ a ∈ p.assignments,
      Text.newlines ("'" ++ a.1 ++ "': '" ++ a.2 ++ "'").toList = 0 := by
    intro a ha
    obtain ⟨hkey, hvalue⟩ := h a ha
    simp only [String.toList_append, Text.newlines_append, hkey, hvalue, hquote, hcolon]
  unfold Preset.directive
  simp only [String.toList_append, Text.newlines_append, hname, hopening, hvariables, hclosing,
    Nat.zero_add, Nat.add_zero]
  apply hinner
  intro l hl
  obtain ⟨a, ha, rfl⟩ := List.mem_map.1 hl
  exact hassignment a ha

theorem newlines_builtin {theme : Theme} {p : Preset} (h : Registry.builtin.preset? theme = some p) :
    Text.newlines p.directive.toList = 0 := by
  have hall : ∀ q ∈ Registry.builtin.presets, ∀ a ∈ q.assignments,
      Text.newlines a.1.toList = 0 ∧ Text.newlines a.2.toList = 0 := by decide +kernel
  exact newlines_directive (hall p (List.mem_of_find?_eq_some h))

theorem height_directiveLines (theme : Theme) :
    height (directiveLines .builtin theme) =
      if (Registry.builtin.preset? theme).isSome then 1 else 0 := by
  unfold directiveLines
  cases hpreset : Registry.builtin.preset? theme with
  | none => rfl
  | some p =>
    have hline := newlines_builtin hpreset
    simp [height, hline]

/-! ## Lines of a diagram -/

/-- The lines of a diagram if each thing that is drawn takes one: the directive, the kind of diagram, the
two braces of each table with its columns between them, and the relationships. -/
def drawnLines (config : Config) (s : Schema) : Nat :=
  (if (Registry.builtin.preset? config.theme).isSome then 1 else 0) + 1 +
    ((config.restrict s).tables.map fun t => t.columns.length + 2).sum +
    (config.restrict s).relationships.length

/-- The newlines in the names of what is drawn, those of columns and their types left aside. -/
def newlinesInNames (config : Config) (s : Schema) : Nat :=
  ((config.restrict s).tables.map fun t => Text.newlines t.name.toList).sum +
    ((config.restrict s).relationships.map fun r =>
      Text.newlines r.fromTable.toList + Text.newlines r.fromField.toList +
        Text.newlines r.toTable.toList + Text.newlines r.toField.toList).sum

theorem length_linesOf_render (config : Config) (s : Schema) :
    (Text.linesOf (render .builtin config s).toList).length =
      drawnLines config s + newlinesInNames config s := by
  have hkind : Text.newlines "erDiagram".toList = 0 := by decide
  rw [render, length_linesOf_unlines, lines, height_append, height_directiveLines, schemaLines,
    height_cons, height_append, height_tables, height_relationshipLines, hkind]
  simp only [drawnLines, newlinesInNames]
  omega

theorem newlinesInNames_eq_zero_iff (config : Config) (s : Schema) :
    newlinesInNames config s = 0 ↔ (config.restrict s).NamesOnOneLine := by
  simp only [newlinesInNames, Nat.add_eq_zero_iff, List.sum_eq_zero_iff_forall_eq_nat,
    List.forall_mem_map, Text.newlines_eq_zero_iff]
  constructor
  · rintro ⟨htables, hrelationships⟩
    refine ⟨htables, fun r hr => ?_⟩
    obtain ⟨⟨⟨hfrom, hfromField⟩, hto⟩, htoField⟩ := hrelationships r hr
    exact ⟨hfrom, hfromField, hto, htoField⟩
  · intro h
    refine ⟨h.tables, fun r hr => ?_⟩
    obtain ⟨hfrom, hfromField, hto, htoField⟩ := h.relationships r hr
    exact ⟨⟨⟨hfrom, hfromField⟩, hto⟩, htoField⟩

/-- **A diagram has one line for each thing it draws, and one more for each newline in the name of a
table or in an end of a relationship.** So it has exactly the lines it should have if and only if there
is no newline in any of them. -/
theorem length_lines_convert {source : String} {s : Schema} (config : Config)
    (hparse : Document.parse source = .ok s) :
    ∃ diagram, (Converter.convert { config } source).1 = .ok diagram ∧
      (Text.linesOf diagram.toList).length = drawnLines config s + newlinesInNames config s ∧
      ((Text.linesOf diagram.toList).length = drawnLines config s ↔
        (config.restrict s).NamesOnOneLine) := by
  refine ⟨render .builtin config s, ?_, length_linesOf_render config s, ?_⟩
  · simp only [Converter.convert, hparse]
    rfl
  · rw [length_linesOf_render, ← newlinesInNames_eq_zero_iff]
    omega

/-! ## A name that breaks a line -/

/-- A table whose name is written with an escaped newline. -/
def brokenSource : String := "Table \"a\\nb\" \x7b id int \x7d"

def brokenSchema : Schema := ⟨[⟨"a\nb", [⟨"id", "int", []⟩]⟩], []⟩

theorem parse_brokenSource : Document.parse brokenSource = .ok brokenSchema := by
  have hread : (Document.parse brokenSource).toOption = some brokenSchema := by decide +kernel
  cases hparse : Document.parse brokenSource with
  | error cause =>
    rw [hparse] at hread
    cases hread
  | ok s =>
    rw [hparse] at hread
    cases hread
    rfl

/-- The diagram should take four lines and takes five. -/
theorem convert_breaks_line : ∃ s diagram,
    Document.parse brokenSource = .ok s ∧
      (Converter.convert { config := {} } brokenSource).1 = .ok diagram ∧
      diagram = "erDiagram\n    \"a\nb\" \x7b\n        int id\n    \x7d\n" ∧
      drawnLines {} s = 4 ∧ (Text.linesOf diagram.toList).length = 5 := by
  refine ⟨brokenSchema, render .builtin {} brokenSchema, parse_brokenSource, ?_, ?_, ?_, ?_⟩
  · simp only [Converter.convert, parse_brokenSource]
    rfl
  · decide +kernel
  · decide +kernel
  · decide +kernel

theorem length_lines_convert_brokenSource :
    Document.parse brokenSource = .ok brokenSchema ∧
      ∃ diagram, (Converter.convert { config := {} } brokenSource).1 = .ok diagram ∧
        (Text.linesOf diagram.toList).length = drawnLines {} brokenSchema + 1 := by
  obtain ⟨diagram, hdiagram, hlength, -⟩ := length_lines_convert {} parse_brokenSource
  have hnewlines : newlinesInNames {} brokenSchema = 1 := by decide +kernel
  exact ⟨parse_brokenSource, diagram, hdiagram, by rw [hlength, hnewlines]⟩

end Diagram

end SchemaDiagram
