/-
Diagrams: the text that draws a schema as an entity relationship diagram. A
diagram is a list of lines, each ended by a newline: the directive of a theme
if it has one, the word that names the kind of diagram, a block for each table
and a line for each relationship.

Names are made safe before they are written. A table name goes in quotes unless
it is a plain word; column names and types are turned into single words, because
the language of diagrams has no quotes there.
-/
import SchemaDiagram.Config
import SchemaDiagram.Event
import SchemaDiagram.Text.Name

namespace SchemaDiagram

namespace Diagram

/-- The ends of the line that is drawn for a cardinality, left side first. -/
def crowsFoot : Cardinality → String
  | .oneToOne => "||--||"
  | .oneToMany => "||--o\x7b"
  | .manyToOne => "\x7do--||"
  | .manyToMany => "\x7do--o\x7b"

/-! ## Markers of columns -/

inductive KeyMarker
  | primary
  | foreign
  deriving DecidableEq, Repr

def KeyMarker.text : KeyMarker → String
  | .primary => "PK"
  | .foreign => "FK"

/-- The marker of a column: a primary key is marked as such, any other column that a relationship
touches as a foreign key. -/
def keyMarker? (table : String) (column : Column) (relationships : List Relationship) :
    Option KeyMarker :=
  if column.isPrimaryKey then some .primary
  else if relationships.any (·.touches table column.name) then some .foreign
  else none

/-! ## Safe names -/

/-- A text that may stand between double quotes. -/
def withoutQuotes (s : String) : String := s.map fun c => if c = '"' then '\'' else c

/-- Characters of table names that need no quotes. -/
def isPlain (c : Char) : Bool := c.isAlphanum || c == '_' || c == '-'

def isPlainName (name : String) : Bool := !name.toList.isEmpty && name.toList.all isPlain

/-- The name of a table, in quotes unless it is plain. -/
def entityName (name : String) : String :=
  if isPlainName name then name else "\"" ++ withoutQuotes name ++ "\""

/-- Characters that names and types of columns may hold. -/
def isWordChar (c : Char) : Bool :=
  Text.isAlphanumeric c || ['_', '-', '(', ')', '[', ']', '*'].contains c

/-- The name or type of a column as a single word. -/
def attributeWord (s : String) : String := s.map fun c => if isWordChar c then c else '_'

/-! ## Lines -/

def columnLine (table : String) (relationships : List Relationship) (column : Column) : String :=
  "        " ++ attributeWord column.type ++ " " ++ attributeWord column.name ++
    match keyMarker? table column relationships with
    | some marker => " " ++ marker.text
    | none => ""

def tableLines (relationships : List Relationship) (table : Table) : List String :=
  ("    " ++ entityName table.name ++ " \x7b") ::
    (table.columns.map (columnLine table.name relationships) ++ ["    \x7d"])

def relationshipLine (r : Relationship) : String :=
  "    " ++ entityName r.fromTable ++ " " ++ crowsFoot r.cardinality ++ " " ++
    entityName r.toTable ++ " : \"" ++ withoutQuotes r.label ++ "\""

/-- The lines that draw a whole schema. -/
def schemaLines (s : Schema) : List String :=
  "erDiagram" ::
    (s.tables.flatMap (tableLines s.relationships) ++ s.relationships.map relationshipLine)

/-- The line in front of a diagram that sets up its theme, if there is a preset for it. -/
def directiveLines (registry : Registry) (theme : Theme) : List String :=
  (registry.preset? theme).toList.map Preset.directive

def lines (registry : Registry) (config : Config) (s : Schema) : List String :=
  directiveLines registry config.theme ++ schemaLines (config.restrict s)

/-- Lines as one text, with a newline behind each. -/
def unlines (ls : List String) : String := String.join (ls.map (· ++ "\n"))

/-- The diagram of the part of a schema that the configuration asks for. -/
def render (registry : Registry) (config : Config) (s : Schema) : String :=
  unlines (lines registry config s)

/-! ## Events -/

/-- The relationships that are drawn although the schema lacks one of their tables. -/
def warnings (config : Config) (s : Schema) : List Relationship :=
  s.unresolved.filter config.keeps

/-- What happens while a schema is drawn. -/
def events (config : Config) (s : Schema) : List Event :=
  (warnings config s).map .undeclaredTable ++
    [.renderedDiagram config.theme (config.restrict s).tables.length
      (config.restrict s).relationships.length]

end Diagram

end SchemaDiagram
