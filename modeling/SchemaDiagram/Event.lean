/-
What happens while a document is read and drawn, as data. An event has a
level, a message and named fields; where and whether it is shown is decided
elsewhere, and nothing that is read or drawn depends on it.
-/
import SchemaDiagram.Schema
import SchemaDiagram.Theme

namespace SchemaDiagram

inductive Level
  | warn
  | info
  | debug
  deriving DecidableEq, Repr

/-- The value of a field of an event. -/
inductive FieldValue
  | text (value : String)
  | count (value : Nat)
  deriving DecidableEq, Repr

def FieldValue.shown : FieldValue → String
  | .text s => s
  | .count n => toString n

inductive Event
  /-- A run of the program begins, with the source and the options it works with. -/
  | converting (input : String) (theme : Theme) (html : Bool) (filter : String)
  | parsedTable (table : String) (columns : Nat)
  /-- A block that adds nothing to the schema begins, with its keyword as written. -/
  | skippingBlock (keyword : String)
  | parsedSchema (tables relationships : Nat)
  /-- A relationship is drawn although one of its tables is not declared. -/
  | undeclaredTable (relationship : Relationship)
  | renderedDiagram (theme : Theme) (tables relationships : Nat)
  deriving DecidableEq, Repr

namespace Event

def level : Event → Level
  | .converting .. => .info
  | .undeclaredTable _ => .warn
  | _ => .debug

def message : Event → String
  | .converting .. => "converting"
  | .parsedTable .. => "parsed table"
  | .skippingBlock _ => "skipping block"
  | .parsedSchema .. => "parsed schema"
  | .undeclaredTable _ =>
    "relationship references an undeclared table, rendering raw names"
  | .renderedDiagram .. => "rendered diagram"

def fields : Event → List (String × FieldValue)
  | .converting input theme html filter =>
    [("input", .text input), ("theme", .text theme.name),
      ("html", .text (if html then "true" else "false")), ("filter", .text filter)]
  | .parsedTable table columns => [("table", .text table), ("columns", .count columns)]
  | .skippingBlock keyword => [("keyword", .text keyword)]
  | .parsedSchema tables relationships =>
    [("tables", .count tables), ("relationships", .count relationships)]
  | .undeclaredTable r =>
    [("from", .text r.fromTable), ("to", .text r.toTable), ("relationship", .text r.label)]
  | .renderedDiagram theme tables relationships =>
    [("theme", .text theme.name), ("tables", .count tables),
      ("relationships", .count relationships)]

end Event

end SchemaDiagram
