/-
Diagrams are uniquely readable: from the text of a diagram a reader that goes
line by line gets back all that was drawn (`read_render`), as long as no name
breaks a line.

Blocks and relationships are indented alike, and between quotes a name may hold
anything a line is made of: blanks, braces, colons, the sign of a cardinality. What
makes them readable is that no name holds a double quote once it is written, so
the quote that opens a name finds the one that closes it, and that a bare name
holds no blank. A column has no quotes at all; its two words hold no blank
either, also when they are empty, so the blanks between them can be counted.
-/
import Mathlib.Data.List.Infix
import SchemaDiagram.Proofs.DiagramLines
import SchemaDiagram.Proofs.Lexemes

namespace SchemaDiagram

/-! ## Drawings -/

namespace Drawing

structure Column where
  type : String
  name : String
  marker : Option Diagram.KeyMarker
  deriving DecidableEq, Repr

structure Block where
  name : String
  columns : List Column
  deriving DecidableEq, Repr

/-- A line between two blocks, with its label. -/
structure Link where
  source : String
  cardinality : Cardinality
  target : String
  label : String
  deriving DecidableEq, Repr

end Drawing

/-- What a diagram shows. -/
structure Drawing where
  blocks : List Drawing.Block
  links : List Drawing.Link
  deriving DecidableEq, Repr

namespace Drawing

open Diagram

/-- A column with its type and name as single words. -/
def ofColumn (table : String) (relationships : List Relationship) (c : SchemaDiagram.Column) :
    Column where
  type := attributeWord c.type
  name := attributeWord c.name
  marker := keyMarker? table c relationships

def ofTable (relationships : List Relationship) (t : Table) : Block where
  name := withoutQuotes t.name
  columns := t.columns.map (ofColumn t.name relationships)

def ofRelationship (r : Relationship) : Link where
  source := withoutQuotes r.fromTable
  cardinality := r.cardinality
  target := withoutQuotes r.toTable
  label := withoutQuotes r.label

/-- The drawing of a whole schema, in its order. -/
def ofSchema (s : Schema) : Drawing where
  blocks := s.tables.map (ofTable s.relationships)
  links := s.relationships.map ofRelationship

/-! ## Reading a drawing -/

/-- Reads up to the next double quote and passes over it. -/
def readQuoted (s : List Char) : Option (String × List Char) :=
  match s.dropWhile (· ≠ '"') with
  | [] => none
  | _ :: rest => some (String.ofList (s.takeWhile (· ≠ '"')), rest)

/-- Reads the name of a table, with or without quotes around it. -/
def readName : List Char → Option (String × List Char)
  | '"' :: s => readQuoted s
  | s => some (String.ofList (s.takeWhile isPlain), s.dropWhile isPlain)

def readFoot (s : List Char) : Option (Cardinality × List Char) :=
  Cardinality.all.findSome? fun c => (s.dropPrefix? (crowsFoot c).toList).map (c, ·)

/-- Reads the first line of a block. -/
def readOpening (line : List Char) : Option String := do
  let s ← line.dropPrefix? "    ".toList
  let (name, s) ← readName s
  if s = " \x7b".toList then some name else none

def readColumn (line : List Char) : Option Column := do
  let s ← line.dropPrefix? "        ".toList
  match s.splitOn ' ' with
  | [type, name] => some ⟨String.ofList type, String.ofList name, none⟩
  | [type, name, marker] =>
    let marker ← [KeyMarker.primary, KeyMarker.foreign].find? (fun m => m.text.toList = marker)
    some ⟨String.ofList type, String.ofList name, some marker⟩
  | _ => none

def readLink (line : List Char) : Option Link := do
  let s ← line.dropPrefix? "    ".toList
  let (source, s) ← readName s
  let s ← s.dropPrefix? " ".toList
  let (cardinality, s) ← readFoot s
  let s ← s.dropPrefix? " ".toList
  let (target, s) ← readName s
  let s ← s.dropPrefix? " : \"".toList
  let (label, s) ← readQuoted s
  if s = [] then some ⟨source, cardinality, target, label⟩ else none

/-- Reads blocks and links, inside of a block or between two of them. -/
def readLines : Option Block → List (List Char) → Option Drawing
  | none, [] => some ⟨[], []⟩
  | some _, [] => none
  | none, line :: lines =>
    match readOpening line with
    | some name => readLines (some ⟨name, []⟩) lines
    | none => do
      let link ← readLink line
      let d ← readLines none lines
      some { d with links := link :: d.links }
  | some block, line :: lines =>
    if line = "    \x7d".toList then do
      let d ← readLines none lines
      some { d with blocks := block :: d.blocks }
    else do
      let column ← readColumn line
      readLines (some { block with columns := block.columns ++ [column] }) lines

def isDirective (line : List Char) : Bool := "%%".toList.isPrefixOf line

/-- Reads a diagram: the directive of a theme if there is one, the kind of diagram, and what it shows. -/
def read (diagram : String) : Option Drawing :=
  match (Text.linesOf diagram.toList).dropWhile isDirective with
  | [] => none
  | kind :: lines => if kind = "erDiagram".toList then readLines none lines else none

/-! ## Names -/

theorem dropPrefix?_append (p s : List Char) : (p ++ s).dropPrefix? p = some s :=
  List.dropPrefix?_eq_some_iff.2 ⟨p, rfl, beq_self_eq_true p⟩

theorem quote_not_mem_withoutQuotes (s : String) : '"' ∉ (withoutQuotes s).toList := by
  rw [withoutQuotes, String.toList_map]
  intro hmem
  obtain ⟨c, -, hc⟩ := List.mem_map.1 hmem
  split at hc
  next => exact absurd hc (by decide)
  next hne => exact hne hc

theorem withoutQuotes_of_not_mem {s : String} (h : '"' ∉ s.toList) : withoutQuotes s = s := by
  have hsame : ∀ c ∈ s.toList, (if c = '"' then '\'' else c) = c := by
    intro c hc
    rw [if_neg]
    rintro rfl
    exact h hc
  rw [← String.toList_inj, withoutQuotes, String.toList_map, List.map_congr_left hsame, List.map_id']

theorem readQuoted_append {s : String} (rest : List Char) (h : '"' ∉ s.toList) :
    readQuoted (s.toList ++ '"' :: rest) = some (s, rest) := by
  have hs : ∀ c ∈ s.toList, decide (c ≠ '"') = true := by
    intro c hc
    simp only [decide_eq_true_eq]
    rintro rfl
    exact h hc
  obtain ⟨htake, hdrop⟩ := @takeWhile_of_head _ s.toList ('"' :: rest) hs (by simp)
  simp only [readQuoted, htake, hdrop, String.ofList_toList]

/-- The name of a table is read back in front of a blank. -/
theorem readName_entityName {rest : List Char} (name : String) (hrest : rest.head? = some ' ') :
    readName ((entityName name).toList ++ rest) = some (withoutQuotes name, rest) := by
  unfold entityName
  split
  next hplain =>
    simp only [isPlainName, Bool.and_eq_true, List.all_eq_true] at hplain
    obtain ⟨hne, hall⟩ := hplain
    have hquote : '"' ∉ name.toList := fun hmem => absurd (hall _ hmem) (by decide)
    have hbare : ∀ t, name.toList ++ rest = '"' :: t → False := by
      intro t ht
      cases hname : name.toList with
      | nil => simp [hname] at hne
      | cons c s =>
        rw [hname] at ht hquote
        exact hquote (by simp [(List.cons.inj ht).1])
    have hstop : ∀ c, rest.head? = some c → isPlain c = false := by
      intro c hc
      rw [hrest] at hc
      cases hc
      decide
    obtain ⟨htake, hdrop⟩ := takeWhile_of_head hall hstop
    rw [readName.eq_2 _ hbare, htake, hdrop, withoutQuotes_of_not_mem hquote, String.ofList_toList]
  next =>
    have hread := readQuoted_append rest (quote_not_mem_withoutQuotes name)
    simp only [String.toList_append, List.append_assoc]
    exact hread

theorem toList_crowsFoot (c : Cardinality) : (crowsFoot c).toList =
    match c with
    | .oneToOne => ['|', '|', '-', '-', '|', '|']
    | .oneToMany => ['|', '|', '-', '-', 'o', '\x7b']
    | .manyToOne => ['\x7d', 'o', '-', '-', '|', '|']
    | .manyToMany => ['\x7d', 'o', '-', '-', 'o', '\x7b'] := by
  cases c <;> rfl

/-- No foot is the beginning of another one. -/
theorem readFoot_crowsFoot (c : Cardinality) (rest : List Char) :
    readFoot ((crowsFoot c).toList ++ rest) = some (c, rest) := by
  cases c <;> simp [readFoot, Cardinality.all, toList_crowsFoot, List.dropPrefix?]

/-! ## Lines -/

theorem readOpening_openingLine (name : String) :
    readOpening ("    " ++ entityName name ++ " \x7b").toList = some (withoutQuotes name) := by
  have hname := @readName_entityName " \x7b".toList name rfl
  simp only [readOpening, String.toList_append, List.append_assoc, dropPrefix?_append,
    Option.bind_eq_bind, Option.bind_some, hname, if_true]

/-- The parts of a line of a relationship in their order. -/
theorem toList_relationshipLine (r : Relationship) : (relationshipLine r).toList =
    "    ".toList ++ ((entityName r.fromTable).toList ++ (" ".toList ++
      ((crowsFoot r.cardinality).toList ++ (" ".toList ++ ((entityName r.toTable).toList ++
        (" : \"".toList ++ ((withoutQuotes r.label).toList ++ ['"']))))))) := by
  have hquote : "\"".toList = ['"'] := rfl
  simp only [relationshipLine, String.toList_append, List.append_assoc, hquote]

/-- No line of a relationship opens a block: what stands behind its first name is no brace. -/
theorem readOpening_relationshipLine (r : Relationship) :
    readOpening (relationshipLine r).toList = none := by
  have hname (s : List Char) := @readName_entityName (" ".toList ++ s) r.fromTable rfl
  have hfoot (s : List Char) : " ".toList ++ ((crowsFoot r.cardinality).toList ++ s) ≠
      " \x7b".toList := by
    have hblank : " ".toList = [' '] := rfl
    have hbrace : " \x7b".toList = [' ', '\x7b'] := rfl
    rw [hblank, hbrace, toList_crowsFoot]
    cases r.cardinality <;> simp
  rw [toList_relationshipLine]
  simp only [readOpening, dropPrefix?_append, Option.bind_eq_bind, Option.bind_some, hname]
  rw [if_neg (hfoot _)]

theorem readLink_relationshipLine (r : Relationship) :
    readLink (relationshipLine r).toList = some (ofRelationship r) := by
  have hfrom (s : List Char) := @readName_entityName (" ".toList ++ s) r.fromTable rfl
  have hto (s : List Char) := @readName_entityName (" : \"".toList ++ s) r.toTable rfl
  have hlabel := readQuoted_append [] (quote_not_mem_withoutQuotes r.label)
  rw [toList_relationshipLine]
  simp only [readLink, dropPrefix?_append, Option.bind_eq_bind, Option.bind_some, hfrom,
    readFoot_crowsFoot, hto, hlabel, if_true]
  rfl

theorem blank_not_mem_attributeWord (s : String) : ' ' ∉ (attributeWord s).toList := by
  have hblank : ¬ isWordChar ' ' = true := by decide +kernel
  exact fun hmem => hblank (isWordChar_of_mem_attributeWord hmem)

/-- A blank ends a word that holds none. -/
theorem splitOn_append {word : List Char} (s : List Char) (h : ' ' ∉ word) :
    (word ++ ' ' :: s).splitOn ' ' = word :: s.splitOn ' ' := by
  have hword := List.splitOn_eq_singleton h
  rw [List.splitOn] at hword ⊢
  rw [List.splitOnP_append_cons _ _ (by simp), hword]
  rfl

theorem readColumn_columnLine (table : String) (rs : List Relationship) (c : SchemaDiagram.Column) :
    readColumn (columnLine table rs c).toList = some (ofColumn table rs c) := by
  have htype := blank_not_mem_attributeWord c.type
  have hname := blank_not_mem_attributeWord c.name
  unfold columnLine ofColumn
  cases keyMarker? table c rs with
  | none =>
    have hline : ("        " ++ attributeWord c.type ++ " " ++ attributeWord c.name ++ "").toList =
        "        ".toList ++ ((attributeWord c.type).toList ++ ' ' :: (attributeWord c.name).toList) := by
      simp
    rw [hline]
    simp only [readColumn, dropPrefix?_append, Option.bind_eq_bind, Option.bind_some,
      splitOn_append _ htype, List.splitOn_eq_singleton hname, String.ofList_toList]
  | some marker =>
    have hline : ("        " ++ attributeWord c.type ++ " " ++ attributeWord c.name ++
          (" " ++ marker.text)).toList = "        ".toList ++ ((attributeWord c.type).toList ++
        ' ' :: ((attributeWord c.name).toList ++ ' ' :: marker.text.toList)) := by
      simp
    have hmarker : ' ' ∉ marker.text.toList := by cases marker <;> decide
    have hfind : [KeyMarker.primary, KeyMarker.foreign].find?
        (fun m => m.text.toList = marker.text.toList) = some marker := by cases marker <;> decide
    rw [hline]
    simp only [readColumn, dropPrefix?_append, Option.bind_eq_bind, Option.bind_some,
      splitOn_append _ htype, splitOn_append _ hname, List.splitOn_eq_singleton hmarker, hfind,
      String.ofList_toList]

/-- A line of a column is indented more than the one that closes its block. -/
theorem columnLine_ne_closing (table : String) (rs : List Relationship) (c : SchemaDiagram.Column) :
    (columnLine table rs c).toList ≠ "    \x7d".toList := by
  have hindent (s : List Char) : "        ".toList ++ s ≠ "    \x7d".toList := by
    have hlong : "        ".toList.length = 8 := rfl
    have hshort : "    \x7d".toList.length = 5 := rfl
    intro h
    have hlength := congrArg List.length h
    rw [List.length_append, hlong, hshort] at hlength
    omega
  simp only [columnLine, String.toList_append, List.append_assoc]
  exact hindent _

/-! ## Blocks and whole diagrams -/

variable (rs : List Relationship)

theorem readLines_columns (block : Block) (table : String) (cs : List SchemaDiagram.Column)
    (lines : List (List Char)) :
    readLines (some block) (cs.map (fun c => (columnLine table rs c).toList) ++ lines) =
      readLines (some { block with columns := block.columns ++ cs.map (ofColumn table rs) }) lines := by
  induction cs generalizing block with
  | nil => simp
  | cons c cs ih =>
    rw [List.map_cons, List.cons_append, readLines, if_neg (columnLine_ne_closing table rs c)]
    simp only [readColumn_columnLine, Option.bind_eq_bind, Option.bind_some]
    rw [ih]
    simp

theorem readLines_table (t : Table) (lines : List (List Char)) :
    readLines none ((tableLines rs t).map String.toList ++ lines) =
      (readLines none lines).map fun d => { d with blocks := ofTable rs t :: d.blocks } := by
  have hlines : (tableLines rs t).map String.toList ++ lines =
      ("    " ++ entityName t.name ++ " \x7b").toList ::
        (t.columns.map (fun c => (columnLine t.name rs c).toList) ++
          "    \x7d".toList :: lines) := by
    simp only [tableLines, List.map_cons, List.map_append, List.map_map, List.map_nil,
      List.cons_append, List.append_assoc, List.nil_append]
    rfl
  rw [hlines, readLines, readOpening_openingLine]
  simp only [readLines_columns]
  rw [readLines, if_pos rfl, List.nil_append]
  cases readLines none lines <;> rfl

theorem readLines_tables (ts : List Table) (lines : List (List Char)) :
    readLines none ((ts.flatMap (tableLines rs)).map String.toList ++ lines) =
      (readLines none lines).map fun d => { d with blocks := ts.map (ofTable rs) ++ d.blocks } := by
  induction ts with
  | nil => simp
  | cons t ts ih =>
    rw [List.flatMap_cons, List.map_append, List.append_assoc, readLines_table, ih]
    cases readLines none lines <;> rfl

theorem readLines_relationships :
    readLines none ((rs.map relationshipLine).map String.toList) =
      some ⟨[], rs.map ofRelationship⟩ := by
  induction rs with
  | nil => rfl
  | cons r rs ih =>
    rw [List.map_cons, List.map_cons, readLines, readOpening_relationshipLine]
    simp only [readLink_relationshipLine, ih, Option.bind_eq_bind, Option.bind_some, List.map_cons]

theorem readLines_schema (s : Schema) :
    readLines none ((s.tables.flatMap (tableLines s.relationships) ++
      s.relationships.map relationshipLine).map String.toList) = some (ofSchema s) := by
  rw [List.map_append, readLines_tables, readLines_relationships]
  simp [ofSchema]

/-! ## The lines that are read -/

theorem newline_not_mem_tableLines {t : Table} (h : '\n' ∉ t.name.toList) :
    ∀ l ∈ tableLines rs t, '\n' ∉ l.toList := by
  intro l hl
  rw [← Text.newlines_eq_zero_iff] at h ⊢
  rw [tableLines, List.mem_cons, List.mem_append, List.mem_map, List.mem_singleton] at hl
  rcases hl with rfl | ⟨c, -, rfl⟩ | rfl
  · have hindent : Text.newlines "    ".toList = 0 := by decide
    have hopening : Text.newlines " \x7b".toList = 0 := by decide
    simp only [String.toList_append, Text.newlines_append, newlines_entityName, h, hindent, hopening]
  · exact newlines_columnLine t.name rs c
  · decide

theorem newline_not_mem_relationshipLine {r : Relationship}
    (h : '\n' ∉ r.fromTable.toList ∧ '\n' ∉ r.fromField.toList ∧ '\n' ∉ r.toTable.toList ∧
      '\n' ∉ r.toField.toList) : '\n' ∉ (relationshipLine r).toList := by
  simp only [← Text.newlines_eq_zero_iff] at h ⊢
  obtain ⟨hfrom, hfromField, hto, htoField⟩ := h
  rw [newlines_relationshipLine, hfrom, hfromField, hto, htoField]

theorem newline_not_mem_lines (config : Config) {s : Schema} (h : s.NamesOnOneLine) :
    ∀ l ∈ lines .builtin config s, '\n' ∉ l.toList := by
  intro l hl
  have hdrawn := h.restrict config
  rw [lines, List.mem_append, directiveLines, List.mem_map, schemaLines, List.mem_cons,
    List.mem_append, List.mem_flatMap, List.mem_map] at hl
  rcases hl with ⟨p, hp, rfl⟩ | rfl | ⟨t, ht, hl⟩ | ⟨r, hr, rfl⟩
  · have hpreset : Registry.builtin.preset? config.theme = some p := Option.mem_toList.1 hp
    exact Text.newlines_eq_zero_iff.1 (newlines_builtin hpreset)
  · decide
  · exact newline_not_mem_tableLines _ (hdrawn.tables t ht) l hl
  · exact newline_not_mem_relationshipLine (hdrawn.relationships r hr)

theorem isDirective_directive (p : Preset) : isDirective p.directive.toList = true := by
  have hopening : "%%".toList <+: "%%\x7binit: \x7b'theme': '".toList := by decide
  unfold isDirective Preset.directive
  simp only [String.toList_append, List.append_assoc]
  exact List.isPrefixOf_iff_prefix.2 (hopening.trans (List.prefix_append _ _))

/-- What stands in front of a diagram is passed over, and nothing else. -/
theorem dropWhile_directiveLines (registry : Registry) (theme : Theme) (ls : List (List Char)) :
    ((directiveLines registry theme).map String.toList ++ "erDiagram".toList :: ls).dropWhile
      isDirective = "erDiagram".toList :: ls := by
  have hkind : ¬ isDirective "erDiagram".toList = true := by decide
  have hdirectives : ∀ l ∈ (directiveLines registry theme).map String.toList,
      isDirective l = true := by
    intro l hl
    simp only [directiveLines, List.map_map, List.mem_map, Function.comp_apply] at hl
    obtain ⟨p, -, rfl⟩ := hl
    exact isDirective_directive p
  rw [List.dropWhile_append_of_pos hdirectives, List.dropWhile_cons_of_neg hkind]

/-! ## Markers -/

theorem keyMarker?_eq_primary_iff {table : String} {c : SchemaDiagram.Column} :
    keyMarker? table c rs = some .primary ↔ c.isPrimaryKey = true := by
  unfold keyMarker?
  split
  next h => simp [h]
  next h =>
    simp only [h, Bool.false_eq_true, iff_false]
    split <;> simp

theorem keyMarker?_eq_foreign_iff {table : String} {c : SchemaDiagram.Column} :
    keyMarker? table c rs = some .foreign ↔ c.isPrimaryKey = false ∧
      ∃ r ∈ rs, (r.fromTable = table ∧ r.fromField = c.name) ∨
        (r.toTable = table ∧ r.toField = c.name) := by
  have htouches : rs.any (·.touches table c.name) = true ↔
      ∃ r ∈ rs, (r.fromTable = table ∧ r.fromField = c.name) ∨
        (r.toTable = table ∧ r.toField = c.name) := by
    simp only [List.any_eq_true, Relationship.touches, Bool.or_eq_true, Bool.and_eq_true, beq_iff_eq]
  rw [← htouches]
  unfold keyMarker?
  split
  next h => simp [h]
  next h =>
    simp only [Bool.eq_false_iff.2 h, true_and]
    split
    next hany => simp [hany]
    next hany => simp [hany]

/-! ## Unique reading -/

theorem read_render_eq (config : Config) {s : Schema} (h : s.NamesOnOneLine) :
    read (render .builtin config s) = some (ofSchema (config.restrict s)) := by
  rw [read, render, linesOf_unlines (newline_not_mem_lines config h), lines, schemaLines,
    List.map_append, List.map_cons, dropWhile_directiveLines]
  simp only [if_true, readLines_schema]

/-- **The text of a diagram can be read in one way only.** A reader gets back the tables that are drawn
with their columns, and the relationships, all in their order: the names of tables and the labels with
single quotes for double ones, the columns with their types and names as single words. A column bears the
mark of a primary key exactly if it is one, and that of a foreign key exactly if it is none and an end of
a relationship that is drawn. So schemas with equal diagrams are drawn alike. -/
theorem read_render (config : Config) {s : Schema} (h : s.NamesOnOneLine) :
    read (render .builtin config s) = some (ofSchema (config.restrict s)) ∧
      (∀ table c,
        (keyMarker? table c (config.restrict s).relationships = some .primary ↔
          c.isPrimaryKey = true) ∧
        (keyMarker? table c (config.restrict s).relationships = some .foreign ↔
          c.isPrimaryKey = false ∧ ∃ r ∈ (config.restrict s).relationships,
            (r.fromTable = table ∧ r.fromField = c.name) ∨
              (r.toTable = table ∧ r.toField = c.name))) ∧
      ∀ (config' : Config) (s' : Schema), s'.NamesOnOneLine →
        render .builtin config' s' = render .builtin config s →
          ofSchema (config'.restrict s') = ofSchema (config.restrict s) := by
  refine ⟨read_render_eq config h, fun table c => ?_, ?_⟩
  · exact ⟨keyMarker?_eq_primary_iff _, keyMarker?_eq_foreign_iff _⟩
  · intro config' s' h' hrender
    have hread := read_render_eq config' h'
    rw [hrender, read_render_eq config h] at hread
    exact (Option.some.inj hread).symm

/-- Names that look like parts of a diagram: a brace, the rest of a relationship, nothing at all. -/
def oddSchema : Schema where
  tables := [⟨"a\" \x7b", [⟨"created at", "", ["PK"]⟩, ⟨"", "int PK", []⟩]⟩, ⟨"\x7d", []⟩]
  relationships := [⟨"\x7d", "\" : \"", "a\" \x7b", "", .manyToOne⟩,
    ⟨"", "", "x \x7do--|| y", "", .oneToOne⟩]

/-- A schema with other names and the same diagram. -/
def oddTwin : Schema where
  tables := [⟨"a' \x7b", [⟨"created_at", "", ["primary key"]⟩, ⟨"", "int_PK", []⟩]⟩, ⟨"\x7d", []⟩]
  relationships := [⟨"\x7d", "' : '", "a' \x7b", "", .manyToOne⟩,
    ⟨"", "", "x \x7do--|| y", "", .oneToOne⟩]

def oddDiagram : String :=
  "erDiagram\n" ++
    "    \"a' \x7b\" \x7b\n" ++
    "         created_at PK\n" ++
    "        int_PK  FK\n" ++
    "    \x7d\n" ++
    "    \"\x7d\" \x7b\n" ++
    "    \x7d\n" ++
    "    \"\x7d\" \x7do--|| \"a' \x7b\" : \"' : ' > \"\n" ++
    "    \"\" ||--|| \"x \x7do--|| y\" : \" - \"\n"

theorem render_oddSchema : render .builtin {} oddSchema = oddDiagram := by decide +kernel

theorem render_oddTwin : render .builtin {} oddTwin = oddDiagram := by decide +kernel

theorem read_render_oddDiagram :
    oddSchema.NamesOnOneLine ∧ oddTwin.NamesOnOneLine ∧
      read oddDiagram = some
        ⟨[⟨"a' \x7b", [⟨"", "created_at", some .primary⟩, ⟨"int_PK", "", some .foreign⟩]⟩, ⟨"\x7d", []⟩],
          [⟨"\x7d", .manyToOne, "a' \x7b", "' : ' > "⟩, ⟨"", .oneToOne, "x \x7do--|| y", " - "⟩]⟩ ∧
      oddSchema ≠ oddTwin ∧ ofSchema oddTwin = ofSchema oddSchema := by
  have hodd : oddSchema.NamesOnOneLine := ⟨by decide +kernel, by decide +kernel⟩
  have htwin : oddTwin.NamesOnOneLine := ⟨by decide +kernel, by decide +kernel⟩
  obtain ⟨hread, -, hunique⟩ := read_render {} hodd
  have hdrawing := hunique {} oddTwin htwin (by rw [render_oddSchema, render_oddTwin])
  rw [Config.restrict_default, Config.restrict_default] at hdrawing
  refine ⟨hodd, htwin, ?_, by decide +kernel, hdrawing⟩
  rw [← render_oddSchema, hread, Config.restrict_default]
  decide +kernel

end Drawing

end SchemaDiagram
