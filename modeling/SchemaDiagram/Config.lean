/-
What a conversion is asked for: a theme, the tables to draw, and whether a page
is wanted around the diagram.
-/
import SchemaDiagram.Schema
import SchemaDiagram.TableFilter
import SchemaDiagram.Theme

namespace SchemaDiagram

structure Config where
  theme : Theme := .default
  /-- The tables to draw; all of them if there is no filter. -/
  filter : Option TableFilter := none
  html : Bool := false
  deriving DecidableEq, Repr

inductive ConfigError
  | unknownTheme (name : String)
  | filter (cause : FilterError)
  deriving DecidableEq, Repr

def ConfigError.message : ConfigError → String
  | .unknownTheme name =>
    "Unknown theme '" ++ name ++ "', expected one of: default, dark, neutral, forest"
  | .filter cause => cause.message

namespace Config

/-- Reads the name of a theme. -/
def themeOf (name : String) : Except ConfigError Theme :=
  match Theme.ofName? name with
  | some theme => .ok theme
  | none => .error (.unknownTheme name)

/-- Reads a filter. -/
def filterOf (text : String) : Except ConfigError TableFilter :=
  match TableFilter.ofText text with
  | .ok f => .ok f
  | .error cause => .error (.filter cause)

/-- Whether a table is drawn. -/
def includes (c : Config) (table : String) : Bool := c.filter.all (·.contains table)

/-- A relationship is drawn if both its tables are, declared or not. -/
def keeps (c : Config) (r : Relationship) : Bool := c.includes r.fromTable && c.includes r.toTable

/-- The part of a schema that is drawn, in its order. -/
def restrict (c : Config) (s : Schema) : Schema where
  tables := s.tables.filter fun t => c.includes t.name
  relationships := s.relationships.filter c.keeps

end Config

end SchemaDiagram
