/-
Database schemas: tables with their columns in declaration order, and the
relationships between columns of two tables. A relationship may name a table
that no declaration mentions; such relationships are called unresolved and are
still part of the schema.
-/
import SchemaDiagram.Text.Case

namespace SchemaDiagram

/-- How many rows stand on each side of a relationship, read left to right: in `manyToOne`
many rows of the left table point at one row of the right one. -/
inductive Cardinality
  | oneToOne
  | oneToMany
  | manyToOne
  | manyToMany
  deriving DecidableEq, Repr

namespace Cardinality

/-- The operator between the two ends of a written reference. -/
def operator : Cardinality → String
  | .oneToOne => "-"
  | .oneToMany => "<"
  | .manyToOne => ">"
  | .manyToMany => "<>"

def all : List Cardinality := [.oneToOne, .oneToMany, .manyToOne, .manyToMany]

/-- Reads an operator; nothing else, not even a blank beside it, is accepted. -/
def ofOperator? (text : String) : Option Cardinality := all.find? (·.operator == text)

/-- Reading an operator undoes writing it, and no other text is read. -/
theorem ofOperator?_eq_some_iff {text : String} {c : Cardinality} :
    ofOperator? text = some c ↔ c.operator = text := by
  constructor
  · intro h
    simpa using List.find?_some h
  · rintro rfl
    cases c <;> rfl

end Cardinality

/-- A column: its name, its type as text, and its settings as text in written order. -/
structure Column where
  name : String
  type : String
  attributes : List String
  deriving DecidableEq, Repr

/-- A column is a primary key by a setting `pk` or `primary key`, in any case. -/
def Column.isPrimaryKey (c : Column) : Bool :=
  c.attributes.any fun a => Text.sameWord a "pk" || Text.sameWord a "primary key"

/-- All settings of a column on one line. -/
def Column.settings (c : Column) : String := ",".intercalate c.attributes

structure Table where
  name : String
  columns : List Column
  deriving DecidableEq, Repr

structure Relationship where
  fromTable : String
  fromField : String
  toTable : String
  toField : String
  cardinality : Cardinality
  deriving DecidableEq, Repr

namespace Relationship

/-- The two fields with the operator between them, as in `user_id > id`. -/
def label (r : Relationship) : String :=
  r.fromField ++ " " ++ r.cardinality.operator ++ " " ++ r.toField

/-- Whether a column of a table is one of the two ends. -/
def touches (r : Relationship) (table column : String) : Bool :=
  (r.fromTable == table && r.fromField == column) || (r.toTable == table && r.toField == column)

end Relationship

structure Schema where
  tables : List Table
  relationships : List Relationship
  deriving DecidableEq, Repr

namespace Schema

/-- The first table of a name. -/
def table? (s : Schema) (name : String) : Option Table := s.tables.find? (·.name == name)

/-- Whether some table has the name. -/
def declares (s : Schema) (name : String) : Bool := s.tables.any (·.name == name)

/-- A relationship is unresolved if the schema lacks the table of either end. -/
def isUnresolved (s : Schema) (r : Relationship) : Bool :=
  !(s.declares r.fromTable && s.declares r.toTable)

def unresolved (s : Schema) : List Relationship := s.relationships.filter s.isUnresolved

end Schema

end SchemaDiagram
